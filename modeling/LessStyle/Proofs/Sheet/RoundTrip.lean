import LessStyle.Proofs.Sheet.Reading
import LessStyle.Proofs.Token.Lexing
import LessStyle.Sheet.Printer

/-!
# Printing gives the source back

A draft can be printed at any moment: the finished nodes, the open blocks as far as they go, and the
blanks that wait for an owner (`Draft.print`). One step adds to this text exactly the tokens it takes
(`Draft.Step.print_eq`), whatever statement they form; so after a whole run the text of the draft is
the text of all tokens, which is the source.

What carries a step is a lemma for each kind of node that is built from tokens: its parts together
are the text of its tokens.
-/

namespace LessStyle

open Token (join)

/-! ## Nodes from tokens -/

namespace Comment

/-- The three parts of the inside of a comment are the inside. -/
theorem padding_append (body : Text) :
    (padding body).1 ++ (padding body).2.1 ++ (padding body).2.2 = body := by
  simp only [padding]
  split
  · simp
  · obtain ⟨r, hbody⟩ := Text.exists_append_trim body
    generalize body.takeWhile Text.isWhite = left at hbody ⊢
    generalize body.trim = text at hbody ⊢
    subst hbody
    rw [← List.length_append, List.drop_left]

/-- A comment is written as its token. -/
theorem raw_ofToken (before : Text) {t : Token} (hk : t.kind.isComment = true)
    (ho : t.kind.Outline t.text) : (ofToken before t).raw = t.text := by
  obtain ⟨kind, text, span⟩ := t
  have hpad := padding_append
  cases kind with
  | lineComment =>
    obtain ⟨body, rfl⟩ := ho
    simpa [ofToken, raw] using hpad body
  | blockComment =>
    obtain ⟨body, rfl⟩ := ho
    have := hpad body
    simp only [List.append_assoc] at this
    simp [ofToken, raw, this]
  | _ => cases hk

end Comment

namespace Declaration

theorem throughColon_append (ts : List Token) :
    (throughColon ts).1 ++ (throughColon ts).2 = ts := by
  rw [throughColon, List.append_assoc, List.take_append_drop, List.takeWhile_append_dropWhile]

theorem head_append (first : Token) (ts : List Token) :
    (head first ts).prop ++ (head first ts).between ++ (head first ts).valueHead ++
      join (head first ts).rest = join (first :: ts) := by
  unfold head
  split
  · next prop hcut =>
    -- the colon ends the first token
    have hfirst : first.text = prop ++ [':'] := by
      split at hcut
      · exact Text.eq_of_cutAt? hcut
      · cases hcut
    have hts : join (ts.takeWhile (·.kind.isTrivia)) ++ join (ts.dropWhile (·.kind.isTrivia)) =
        join ts := by rw [← Token.join_append, List.takeWhile_append_dropWhile]
    simp [hfirst, hts]
  · next prop value _ hcut =>
    have hfirst : first.text = prop ++ ':' :: value := by
      split at hcut
      · exact Text.eq_of_cutAt? hcut
      · cases hcut
    simp [hfirst]
  · -- the property, the tokens through the colon, the trivia after it, the value
    have hall := List.takeWhile_append_dropWhile (p := (!endsProperty ·)) (l := first :: ts)
    have hcolon := throughColon_append ((first :: ts).dropWhile (!endsProperty ·))
    have hrest := List.takeWhile_append_dropWhile (p := fun t : Token => t.kind.isTrivia)
      (l := (throughColon ((first :: ts).dropWhile (!endsProperty ·))).2)
    simp only [List.append_nil, ← Token.join_append, List.append_assoc]
    rw [hrest, hcolon, hall]

/-- A declaration is written as its tokens. -/
theorem print_ofTokens (before : Text) (first : Token) (ts : List Token)
    (semicolon : Option Token) :
    (Node.declaration (ofTokens before first ts semicolon)).print =
      before ++ join (first :: ts) ++ semicolonText semicolon.isSome := by
  rw [← head_append first ts]
  simp only [Node.print, ofTokens, List.append_assoc]

end Declaration

namespace AtRule

/-- An at-rule without the text before it, up to its end or its block. -/
def heading (r : AtRule) : Text := '@' :: r.name ++ r.afterName ++ r.params ++ r.between

theorem print_atRule (r : AtRule) :
    (Node.atRule r).print = r.before ++ r.heading ++ semicolonText r.semicolon := by
  simp [Node.print, heading]

/-- The heading of an at-rule is its tokens. -/
theorem heading_ofTokens (before : Text) {first : Token} (ts : List Token)
    (hk : first.kind = .atWord) (ho : first.kind.Outline first.text) :
    (ofTokens before first ts).heading = join (first :: ts) := by
  obtain ⟨name, hname⟩ := ho.of_eq hk
  have hlead := List.takeWhile_append_dropWhile (p := fun t : Token => t.kind = .space) (l := ts)
  have htrail := take_append_reverse_takeWhile (·.kind = .space)
    (ts.dropWhile fun t : Token => t.kind = .space)
  simp only [heading, ofTokens, List.append_assoc, List.cons_append]
  rw [← Token.join_append, htrail, ← Token.join_append, hlead, hname]
  simp [hname]

end AtRule

/-! ## The text of a draft -/

theorem Node.printList_append (ms ns : List Node) :
    printList (ms ++ ns) = printList ms ++ printList ns := by
  induction ms with
  | nil => simp [printList]
  | cons m ms ih => simp [printList, ih]

theorem Node.printList_singleton (n : Node) : printList [n] = n.print := by
  simp [printList]

/-- The text of an open block up to its first child, with the text before it. -/
def Opening.print : Opening → Text
  | .atRule r => r.before ++ r.heading ++ ['{']
  | .block b => b.before ++ b.selector ++ b.between ++ ['{']

theorem Opening.print_close (o : Opening) (children : List Node) (after : Text) (last : Position) :
    (o.close children after last).print = o.print ++ Node.printList children ++ after ++ ['}'] := by
  cases o <;> simp [close, print, Node.print, AtRule.heading]

namespace Draft

/-- The text of the nodes of the root and of the open blocks, as far as they go. -/
def printFrames (roots : List Node) : List Frame → Text
  | [] => Node.printList roots.reverse
  | f :: fs => printFrames roots fs ++ f.opening.print ++ Node.printList f.children.reverse

/-- The text of a draft up to the blanks that wait for an owner. -/
def printed (d : Draft) : Text := printFrames d.roots d.frames

/-- All text that a draft holds. -/
def print (d : Draft) : Text := d.printed ++ d.spaces

@[simp] theorem spaces_push (d : Draft) (n : Node) : (d.push n).spaces = [] := by
  unfold push
  split <;> rfl

@[simp] theorem printed_push (d : Draft) (n : Node) :
    (d.push n).printed = d.printed ++ n.print := by
  unfold push
  split
  · next hf =>
    simp [printed, hf, printFrames, Node.printList_append, Node.printList_singleton]
  · next f fs hf =>
    simp [printed, hf, printFrames, Node.printList_append, Node.printList_singleton]

@[simp] theorem spaces_enter (d : Draft) (o : Opening) : (d.enter o).spaces = [] := rfl

@[simp] theorem printed_enter (d : Draft) (o : Opening) :
    (d.enter o).printed = d.printed ++ o.print := by
  simp [printed, enter, printFrames, Node.printList]

theorem print_push (d : Draft) (n : Node) : (d.push n).print = d.printed ++ n.print := by
  rw [print, printed_push, spaces_push, List.append_nil]

theorem print_enter (d : Draft) (o : Opening) : (d.enter o).print = d.printed ++ o.print := by
  rw [print, printed_enter, spaces_enter, List.append_nil]

/-- The draft that a closing brace leaves: the innermost block has become a node. -/
theorem close_eq_ok {d d' : Draft} {t : Token} (h : d.close t = .ok d') :
    ∃ f fs, d.frames = f :: fs ∧ d' = { d with frames := fs }.push
      (f.opening.close f.children.reverse d.spaces t.span.first) := by
  unfold close at h
  split at h
  · cases h
  · next f fs hf => exact ⟨f, fs, hf, (Except.ok.inj h).symm⟩

theorem print_close {d d' : Draft} {t : Token} (h : d.close t = .ok d') :
    d'.print = d.print ++ ['}'] := by
  obtain ⟨f, fs, hf, rfl⟩ := close_eq_ok h
  rw [print_push, Opening.print_close, print, printed, printed, hf, printFrames]
  simp only [List.append_assoc]

/-- A declaration or a call adds its tokens and its semicolon. -/
theorem print_simple {d d' : Draft} {colon : Bool} {first : Token} {ts : List Token}
    {semicolon : Option Token} (h : d.simple colon first ts semicolon = .ok d') :
    d'.print = d.print ++ join (first :: ts) ++ semicolonText semicolon.isSome := by
  unfold simple at h
  split at h
  · cases h
    rw [print_push, Declaration.print_ofTokens, print]
    simp only [List.append_assoc]
  split at h
  · cases h
    rw [print_push, Node.print, print]
    simp only [List.append_assoc]
  · cases h

theorem print_enterBlock (d : Draft) (first : Token) (ts : List Token) :
    (d.enterBlock first ts).print = d.print ++ join (first :: ts) ++ ['{'] := by
  have hsplit := congrArg join (splitTrivia_append (first :: ts))
  rw [Token.join_append] at hsplit
  rw [enterBlock, print_enter, Opening.print, print, ← hsplit]
  simp [printed]

theorem print_enterBare (d : Draft) (t : Token) : (d.enterBare t).print = d.print ++ ['{'] := by
  rw [enterBare, print_enter, Opening.print, print]
  simp only [List.append_assoc, List.append_nil]

theorem print_push_atRule (d : Draft) {first : Token} (ts : List Token)
    (hk : first.kind = .atWord) (ho : first.kind.Outline first.text) :
    (d.push (.atRule (.ofTokens d.spaces first ts))).print = d.print ++ join (first :: ts) := by
  rw [print_push, AtRule.print_atRule, AtRule.heading_ofTokens d.spaces ts hk ho, print]
  simp [AtRule.ofTokens, semicolonText]

/-- **One step adds the tokens it takes.** -/
theorem Step.print_eq {d d' : Draft} {taken rest : List Token} (h : Step d taken rest d')
    (ho : ∀ t ∈ taken, t.kind.Outline t.text) : d'.print = d.print ++ join taken := by
  cases h with
  | blank kind => simp [print, printed]
  | @close t _ _ kind closes =>
    have ht : t.text = ['}'] := (ho t (by simp)).of_eq kind
    rw [print_close closes, Token.join_cons, ht]
    rfl
  | @comment t _ kind =>
    have ht := Comment.raw_ofToken d.spaces kind (ho t (by simp))
    rw [print_push, Node.print, ht, print, Token.join_cons, Token.join_nil, List.append_nil,
      List.append_assoc]
    rfl
  | @bare t _ kind =>
    have ht : t.text = ['{'] := (ho t (by simp)).of_eq kind
    rw [print_enterBare, Token.join_cons, ht]
    rfl
  | @block first brace ts _ colon begins extent kind =>
    have ht : brace.text = ['{'] := (ho brace (by simp)).of_eq kind
    rw [print_enterBlock]
    simp [ht]
  | @ended first semicolon ts _ colon _ begins extent kind simple =>
    have ht : semicolon.text = [';'] := (ho semicolon (by simp)).of_eq kind
    rw [print_simple simple]
    simp [ht, semicolonText]
  | unended begins extent stop core simple =>
    rw [print_simple simple]
    simp [semicolonText]
  | @atRuleAtEnd first ts begins params =>
    have hhead := AtRule.heading_ofTokens d.spaces ts begins.kind (ho first (by simp))
    rw [← hhead, print, print]
    change (d.push _).printed ++ _ = _
    rw [printed_push, AtRule.print_atRule]
    simp [AtRule.heading, AtRule.ofTokens, semicolonText]
  | @atRuleEnded first semicolon ts _ begins params kind =>
    have hhead := AtRule.heading_ofTokens d.spaces ts begins.kind (ho first (by simp))
    have ht : semicolon.text = [';'] := (ho semicolon (by simp)).of_eq kind
    rw [print_push, AtRule.print_atRule, print, ← List.cons_append, Token.join_append, ← hhead]
    simp [ht, semicolonText, AtRule.heading, AtRule.ofTokens]
  | @atRuleOpened first brace ts _ begins params kind =>
    have hhead := AtRule.heading_ofTokens d.spaces ts begins.kind (ho first (by simp))
    have ht : brace.text = ['{'] := (ho brace (by simp)).of_eq kind
    rw [print_enter, Opening.print, hhead, print, ← List.cons_append, Token.join_append]
    simp [ht, AtRule.ofTokens]
  | @atRuleClosed first brace ts _ _ begins params kind closes =>
    have ht : brace.text = ['}'] := (ho brace (by simp)).of_eq kind
    rw [print_close closes, print_push_atRule d ts begins.kind (ho first (by simp)),
      ← List.cons_append, Token.join_append]
    simp [ht]

/-- A run adds all tokens. -/
theorem Run.print_eq {d d' : Draft} {ts : List Token} (h : Run d ts d')
    (ho : ∀ t ∈ ts, t.kind.Outline t.text) : d'.print = d.print ++ join ts := by
  induction h with
  | nil => simp
  | cons head tail ih =>
    have hhead := head.print_eq fun t ht => ho t (List.mem_append_left _ ht)
    rw [ih fun t ht => ho t (List.mem_append_right _ ht), hhead, Token.join_append,
      List.append_assoc]

end Draft

namespace Sheet

/-- The sheet of tokens with the outlines of their kinds prints as these tokens. -/
theorem print_eq_join {ts : List Token} {sheet : Sheet} (h : ofTokens ts = .ok sheet)
    (ho : ∀ t ∈ ts, t.kind.Outline t.text) : sheet.print = join ts := by
  obtain ⟨d, hrun, hf, rfl⟩ := exists_run h
  have hd := hrun.print_eq ho
  rw [Draft.print, Draft.printed, hf] at hd
  exact hd

/-- **Printing gives the source back**: if a text can be cut into tokens and these can be read as a
sheet, the text of the sheet is the text, character for character. -/
theorem print_of_tokenize {s : Text} {ts : List Token} {sheet : Sheet}
    (hts : Token.tokenize s = .ok ts) (hsheet : ofTokens ts = .ok sheet) : sheet.print = s := by
  have hlex := Token.lexed_of_tokensFrom hts
  rw [print_eq_join hsheet hlex.outlined, hlex.join_eq]

theorem print_of_tokenize_sample :
    ∃ ts sheet, Token.tokenize sampleSource = .ok ts ∧ ofTokens ts = .ok sheet ∧
      sheet.print = sampleSource := by
  obtain ⟨ts, sheet, hts, hsheet⟩ := exists_of_isOk_parse isOk_parse_sampleSource
  exact ⟨ts, sheet, hts, hsheet, print_of_tokenize hts hsheet⟩

end Sheet

end LessStyle
