import ClassKit.Code.Encode
import Mathlib

/-!
# Well-labelled bodies

A body refers to positions by labels: a branch names its targets, a handler its range and its
entry point. Turning a body into a flow graph or into bytecode looks each of them up, and fails
with `unplacedLabel` on a label no entry places and with `duplicateLabel` on a label placed
twice. A body is *well-labelled* when neither can happen: its placed labels are distinct and
every label it refers to is placed.

Both lookups are built by one kind of fold, which records the labels it passes and fails on a
repeat. `foldlM_records` says once what such a fold does on distinct labels; the flow graph
(`FlowGraph.placeLabels_ok`) and the layout of the writer (`Layout.build_ok`) are instances.
From them, the deepest stack of a well-labelled body is always computed (`Body.maxStack_ok`).
-/

namespace ClassKit

namespace Entry

/-- The label an entry places. -/
def defines : Entry → Option Label
  | label l => some l
  | _ => none

/-- The labels an entry jumps to. -/
def references : Entry → List Label
  | branch b => b.targets
  | _ => []

end Entry

namespace Lowered

/-- The label a lowered entry places. -/
def defines : Lowered → Option Label
  | label l => some l
  | _ => none

/-- The labels a lowered entry jumps to. -/
def references : Lowered → List Label
  | branch b => b.targets
  | _ => []

end Lowered

namespace Handler

/-- The labels a handler names: the start and end of its range and its entry point. -/
def labels (handler : Handler) : List Label := [handler.start, handler.stop, handler.target]

end Handler

namespace Body

/-- The labels a body places, in order. -/
def labelDefs (body : Body) : List Label := body.entries.toList.filterMap Entry.defines

/-- The labels a body refers to: the targets of its branches and the labels of its handlers. -/
def labelRefs (body : Body) : List Label :=
  body.entries.toList.flatMap Entry.references ++ body.handlers.flatMap Handler.labels

/-- Every label is placed at most once, and every label referred to is placed. -/
structure WellLabelled (body : Body) : Prop where
  nodup : body.labelDefs.Nodup
  refsDefined : ∀ label ∈ body.labelRefs, label ∈ body.labelDefs

namespace WellLabelled

variable {body : Body}

theorem target_defined (labelled : body.WellLabelled) {entry : Entry}
    (member : entry ∈ body.entries.toList) {label : Label} (target : label ∈ entry.references) :
    label ∈ body.labelDefs :=
  labelled.refsDefined label (List.mem_append_left _ (List.mem_flatMap.mpr ⟨entry, member, target⟩))

theorem handler_defined (labelled : body.WellLabelled) {handler : Handler}
    (member : handler ∈ body.handlers) {label : Label} (named : label ∈ handler.labels) :
    label ∈ body.labelDefs :=
  labelled.refsDefined label
    (List.mem_append_right _ (List.mem_flatMap.mpr ⟨handler, member, named⟩))

theorem branch_target_defined (labelled : body.WellLabelled) {branch : Branch Label}
    (member : Entry.branch branch ∈ body.entries.toList) {label : Label}
    (target : label ∈ branch.targets) : label ∈ body.labelDefs :=
  labelled.target_defined member target

end WellLabelled

end Body

/-! ## Folds that record labels -/

section Records

variable {γ δ : Type}

/-- A fold that records the label of each item it passes, and fails on a label recorded
before: run over items with distinct labels none of which is recorded yet, it succeeds, and
records exactly their labels on top of what was recorded before. -/
theorem foldlM_records (recorded : δ → Label → Prop) (labelOf : γ → Option Label)
    (step : δ → γ → Except ClassError δ)
    (records : ∀ acc item, (∀ label, labelOf item = some label → ¬ recorded acc label) →
      ∃ next, step acc item = .ok next ∧
        ∀ label, recorded next label ↔ labelOf item = some label ∨ recorded acc label) :
    ∀ (items : List γ) (init : δ), (items.filterMap labelOf).Nodup →
      (∀ label ∈ items.filterMap labelOf, ¬ recorded init label) →
      ∃ final, items.foldlM step init = .ok final ∧
        ∀ label, recorded final label ↔ label ∈ items.filterMap labelOf ∨ recorded init label
  | [], init, _, _ => ⟨init, rfl, fun label => by simp⟩
  | item :: items, init, distinct, fresh => by
    have later : ∀ label, labelOf item = some label → label ∉ items.filterMap labelOf := by
      intro label found
      rw [List.filterMap_cons_some found, List.nodup_cons] at distinct
      exact distinct.1
    have laterDistinct : (items.filterMap labelOf).Nodup := by
      rw [List.filterMap_cons] at distinct
      split at distinct
      · exact distinct
      · exact (List.nodup_cons.mp distinct).2
    have fresh' : ∀ label ∈ items.filterMap labelOf, ¬ recorded init label := by
      intro label member
      apply fresh label
      obtain ⟨other, otherMember, found⟩ := List.mem_filterMap.mp member
      exact List.mem_filterMap.mpr ⟨other, List.mem_cons_of_mem item otherMember, found⟩
    obtain ⟨next, stepped, nextRecorded⟩ := records init item fun label found =>
      fresh label (by rw [List.filterMap_cons_some found]; exact List.mem_cons_self)
    have nextFresh : ∀ label ∈ items.filterMap labelOf, ¬ recorded next label := by
      intro label member isRecorded
      rcases (nextRecorded label).mp isRecorded with found | old
      · exact later label found member
      · exact fresh' label member old
    obtain ⟨final, folded, finalRecorded⟩ := foldlM_records recorded labelOf step records items next
      laterDistinct nextFresh
    refine ⟨final, by rw [List.foldlM_cons, stepped]; exact folded, fun label => ?_⟩
    rw [finalRecorded, nextRecorded, List.filterMap_cons]
    cases labelOf item with
    | none => simp
    | some placed =>
      simp only [Option.some.injEq, List.mem_cons]
      grind

end Records

theorem filterMap_zipIdx_fst {α β : Type} (f : α → Option β) (items : List α) (start : Nat) :
    (items.zipIdx start).filterMap (fun pair => f pair.1) = items.filterMap f := by
  show (items.zipIdx start).filterMap (f ∘ Prod.fst) = _
  rw [← List.filterMap_map, List.zipIdx_map_fst]

theorem mapM_ok {α β ε : Type} {f : α → Except ε β} :
    ∀ {l : List α}, (∀ item ∈ l, ∃ value, f item = .ok value) → ∃ values, l.mapM f = .ok values
  | [], _ => ⟨[], rfl⟩
  | item :: items, each => by
    obtain ⟨value, found⟩ := each item List.mem_cons_self
    obtain ⟨values, rest⟩ := mapM_ok fun other member => each other (List.mem_cons_of_mem item member)
    exact ⟨value :: values, by simp [List.mapM_cons, found, rest, bind, Except.bind, pure, Except.pure]⟩

theorem foldlM_ok {α β ε : Type} {step : β → α → Except ε β} {items : List α}
    (each : ∀ acc item, item ∈ items → ∃ next, step acc item = .ok next) (init : β) :
    ∃ final, items.foldlM step init = .ok final := by
  induction items generalizing init with
  | nil => exact ⟨init, rfl⟩
  | cons item rest restOk =>
    obtain ⟨next, stepped⟩ := each init item List.mem_cons_self
    obtain ⟨final, folded⟩ :=
      restOk (fun acc other member => each acc other (List.mem_cons_of_mem item member)) next
    exact ⟨final, by rw [List.foldlM_cons, stepped]; exact folded⟩

/-! ## Placing the labels of a body -/

namespace FlowGraph

/-- The flow graph places the labels of a body with distinct labels, each of them and no other. -/
theorem placeLabels_ok {entries : Array Entry}
    (distinct : (entries.toList.filterMap Entry.defines).Nodup) :
    ∃ positions, placeLabels entries = .ok positions ∧
      ∀ label, label ∈ positions ↔ label ∈ entries.toList.filterMap Entry.defines := by
  unfold placeLabels
  refine (foldlM_records (fun positions label => label ∈ positions) (fun pair => pair.1.defines) _
    ?records entries.toList.zipIdx {} (by rw [filterMap_zipIdx_fst]; exact distinct) (by simp)).imp
    fun positions ⟨placed, recorded⟩ => ⟨placed, fun label => ?_⟩
  · rintro positions ⟨entry, index⟩ fresh
    cases entry with
    | label label =>
      have absent : positions.contains label = false :=
        Bool.eq_false_iff.mpr fun found => fresh label rfl (Std.HashMap.mem_iff_contains.mpr found)
      refine ⟨positions.insert label index, ?_, fun other => ?_⟩
      · simp only [absent, Bool.false_eq_true, ↓reduceIte]
      · simp [Entry.defines]
    | instruction _ => exact ⟨positions, rfl, by simp [Entry.defines]⟩
    | branch _ => exact ⟨positions, rfl, by simp [Entry.defines]⟩
  · rw [recorded, filterMap_zipIdx_fst]
    simp

theorem labelPosition_ok {positions : Std.HashMap Label Nat} {label : Label}
    (placed : label ∈ positions) : ∃ position, labelPosition positions label = .ok position := by
  unfold labelPosition
  obtain ⟨position, found⟩ := Option.isSome_iff_exists.mp
    (Std.HashMap.isSome_getElem?_iff_mem.mpr placed)
  exact ⟨position, by rw [found]⟩

/-- The flow graph of a well-labelled body is built, and places every label of the body. -/
theorem ofBody_ok {body : Body} (labelled : body.WellLabelled) :
    ∃ graph, ofBody body = .ok graph ∧ graph.entries = body.entries ∧
      ∀ label, label ∈ graph.positions ↔ label ∈ body.labelDefs := by
  obtain ⟨positions, placed, recorded⟩ := placeLabels_ok labelled.nodup
  have named : ∀ handler ∈ body.handlers, ∀ label ∈ handler.labels, label ∈ positions :=
    fun handler member label named => (recorded label).mpr (labelled.handler_defined member named)
  obtain ⟨ranges, ranged⟩ := mapM_ok (f := fun handler => do
      let start ← labelPosition positions handler.start
      let stop ← labelPosition positions handler.stop
      let target ← labelPosition positions handler.target
      pure { start, stop, target, catchType := handler.catchType : HandlerRange })
    (l := body.handlers) (by
      intro handler member
      obtain ⟨start, hasStart⟩ :=
        labelPosition_ok (named handler member handler.start (by simp [Handler.labels]))
      obtain ⟨stop, hasStop⟩ :=
        labelPosition_ok (named handler member handler.stop (by simp [Handler.labels]))
      obtain ⟨target, hasTarget⟩ :=
        labelPosition_ok (named handler member handler.target (by simp [Handler.labels]))
      exact ⟨_, by simp only [hasStart, hasStop, hasTarget, bind, Except.bind]; rfl⟩)
  refine ⟨{ entries := body.entries, positions, ranges }, ?_, rfl, recorded⟩
  simp only [bind, Except.bind] at ranged
  simp only [ofBody, placed, bind, Except.bind, ranged]
  rfl

end FlowGraph

namespace DepthSearch

/-- The depth search never fails on a graph whose branch targets are all placed. -/
theorem run_ok {graph : FlowGraph}
    (targetsPlaced : ∀ branch, Entry.branch branch ∈ graph.entries.toList →
      ∀ label ∈ branch.targets, label ∈ graph.positions) :
    ∀ rounds search, ∃ deepest, run graph rounds search = .ok deepest
  | 0, search => ⟨_, rfl⟩
  | rounds + 1, search => by
    rw [run]
    split
    · exact ⟨_, rfl⟩
    · dsimp only
      split
      · exact run_ok targetsPlaced rounds _
      · split <;> exact run_ok targetsPlaced rounds _
      · rename_i branch found
        have member : Entry.branch branch ∈ graph.entries.toList :=
          Array.mem_toList_iff.mpr (Array.mem_of_getElem? found)
        obtain ⟨targets, resolved⟩ := mapM_ok (f := FlowGraph.labelPosition graph.positions)
          (l := branch.targets) fun label target =>
            FlowGraph.labelPosition_ok (targetsPlaced branch member label target)
        simp only [FlowGraph.branchTargets, resolved, bind, Except.bind]
        split <;> exact run_ok targetsPlaced rounds _
      · exact run_ok targetsPlaced rounds _

end DepthSearch

namespace Body

/-- The deepest stack of a well-labelled body is always computed. -/
theorem maxStack_ok {body : Body} (labelled : body.WellLabelled) :
    ∃ depth, body.maxStack = .ok depth := by
  obtain ⟨graph, built, sameEntries, placed⟩ := FlowGraph.ofBody_ok labelled
  have targetsPlaced : ∀ branch, Entry.branch branch ∈ graph.entries.toList →
      ∀ label ∈ branch.targets, label ∈ graph.positions := by
    intro branch member label target
    rw [sameEntries] at member
    exact (placed label).mpr (labelled.branch_target_defined member target)
  obtain ⟨depth, searched⟩ := DepthSearch.run_ok targetsPlaced (graph.size + 1)
    (DepthSearch.visit ⟨Array.replicate graph.size none, [], 0⟩ 0 0)
  exact ⟨depth, by simp only [maxStack, built, bind, Except.bind]; exact searched⟩

end Body

end ClassKit
