import LessStyle.Proofs.Sheet.Progress
import LessStyle.Proofs.Sheet.Span

/-!
# What a draft holds

A draft has finished nodes and open blocks. `Draft.collect` goes over both in the order of the
document and collects something at each; for a draft without open blocks this is the walk over its
sheet. A new node and a new block add to the end of what is collected. A closing brace only exchanges
what is collected at a block while it is open for what is collected at it when it is finished.
-/

namespace LessStyle

theorem Node.walkList_append (depth : Nat) (ms ns : List Node) :
    walkList depth (ms ++ ns) = walkList depth ms ++ walkList depth ns := by
  induction ms with
  | nil => simp [walkList]
  | cons m ms ih => simp [walkList, ih]

theorem Node.walkList_reverse_cons (depth : Nat) (n : Node) (ns : List Node) :
    walkList depth (n :: ns).reverse = walkList depth ns.reverse ++ n.walk depth := by
  simp [walkList_append, walkList]

namespace Draft

/-- The open blocks, the innermost first. -/
def openings (d : Draft) : List Opening := d.frames.map Frame.opening

@[simp] theorem openings_push (d : Draft) (n : Node) : (d.push n).openings = d.openings := by
  unfold push
  split <;> simp [openings, *]

variable {α : Type} (atNode : Node × Nat → List α) (atOpening : Opening → List α)

/-- What is collected at the nodes of the root and at the open blocks with their nodes. -/
def collectFrames (roots : List Node) : List Frame → List α
  | [] => (Node.walkList 0 roots.reverse).flatMap atNode
  | f :: fs =>
    collectFrames roots fs ++ atOpening f.opening ++
      (Node.walkList (fs.length + 1) f.children.reverse).flatMap atNode

/-- What is collected in the order of the document: at the finished nodes of a draft, each with the
number of nodes around it, and at its open blocks. -/
def collect (d : Draft) : List α := collectFrames atNode atOpening d.roots d.frames

variable {d d' : Draft}

theorem collect_push (n : Node) :
    (d.push n).collect atNode atOpening =
      d.collect atNode atOpening ++ (n.walk d.frames.length).flatMap atNode := by
  obtain ⟨roots, frames, spaces, mixins⟩ := d
  cases frames with
  | nil =>
    simp only [push, collect, collectFrames, Node.walkList_reverse_cons, List.flatMap_append,
      List.length_nil]
  | cons f fs =>
    simp only [push, collect, collectFrames, Node.walkList_reverse_cons, List.flatMap_append,
      List.length_cons, List.append_assoc]

theorem collect_enter (o : Opening) :
    (d.enter o).collect atNode atOpening = d.collect atNode atOpening ++ atOpening o := by
  simp [enter, collect, collectFrames, Node.walkList]

/-- A closing brace exchanges what is collected at the innermost open block. -/
theorem collect_close {t : Token} (h : d.close t = .ok d') :
    ∃ f fs outer inner, d.frames = f :: fs ∧
      d.collect atNode atOpening = outer ++ atOpening f.opening ++ inner ∧
      d'.collect atNode atOpening = outer ++
        atNode (f.opening.close f.children.reverse d.spaces t.span.first, fs.length) ++ inner := by
  obtain ⟨f, fs, hf, rfl⟩ := close_eq_ok h
  refine ⟨f, fs, collectFrames atNode atOpening d.roots fs,
    (Node.walkList (fs.length + 1) f.children.reverse).flatMap atNode, hf, ?_, ?_⟩
  · rw [collect, hf, collectFrames]
  · rw [collect_push, Node.walk_eq, Opening.children_close, List.flatMap_cons,
      List.append_assoc]
    rfl

/-- If nothing else is collected at a block when it is finished, a closing brace changes nothing. -/
theorem collect_close_eq (heq : ∀ o ns after last depth,
      atNode (Opening.close o ns after last, depth) = atOpening o)
    {t : Token} (h : d.close t = .ok d') :
    d'.collect atNode atOpening = d.collect atNode atOpening := by
  obtain ⟨f, fs, outer, inner, -, hbefore, hafter⟩ := collect_close atNode atOpening h
  rw [hbefore, hafter, heq]

end Draft

/-- Without open blocks, the walk over the sheet is collected. -/
theorem Draft.collect_of_frames {α : Type} (atNode : Node × Nat → List α)
    (atOpening : Opening → List α) {d : Draft} (h : d.frames = []) :
    d.collect atNode atOpening =
      (Sheet.walk ⟨d.roots.reverse, d.spaces, d.mixins⟩).flatMap atNode := by
  rw [collect, h, collectFrames, Sheet.walk]

/-! ## Finished nodes -/

namespace Draft

variable {d d' : Draft}

/-- The finished nodes of a draft, each with the number of nodes around it. -/
def finished (d : Draft) : List (Node × Nat) := d.collect (fun n => [n]) fun _ => []

theorem finished_of_frames (h : d.frames = []) :
    d.finished = Sheet.walk ⟨d.roots.reverse, d.spaces, d.mixins⟩ := by
  rw [finished, collect_of_frames _ _ h, List.flatMap_singleton']

theorem finished_push (d : Draft) (n : Node) :
    (d.push n).finished = d.finished ++ n.walk d.level := by
  rw [finished, collect_push, List.flatMap_singleton']
  rfl

theorem finished_enter (d : Draft) (o : Opening) : (d.enter o).finished = d.finished := by
  rw [finished, collect_enter, List.append_nil]
  rfl

/-- **A closing brace** finishes the innermost open block, with the other open blocks around it, and
nothing else. -/
theorem finished_close {t : Token} (h : d.close t = .ok d') :
    ∃ o os children, d.openings = o :: os ∧ d'.openings = os ∧
      ∀ n, n ∈ d'.finished ↔
        n ∈ d.finished ∨ n = (o.close children d.spaces t.span.first, os.length) := by
  obtain ⟨f, fs, outer, inner, hf, hbefore, hafter⟩ :=
    collect_close (fun n => [n]) (fun _ => []) h
  refine ⟨f.opening, fs.map Frame.opening, f.children.reverse, ?_, ?_, fun n => ?_⟩
  · rw [openings, hf, List.map_cons]
  · obtain ⟨g, gs, hg, rfl⟩ := close_eq_ok h
    obtain ⟨-, rfl⟩ := List.cons.inj (hf.symm.trans hg)
    rw [openings_push, openings]
  · rw [finished, finished, hbefore, hafter, List.length_map]
    simp only [List.mem_append, List.mem_singleton, List.append_nil]
    tauto

end Draft

end LessStyle
