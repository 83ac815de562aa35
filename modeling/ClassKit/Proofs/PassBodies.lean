import ClassKit.Patch.Pipeline
import ClassKit.Proofs.Outcome

/-!
# The passes change only method bodies

Each pass of a patch run rewrites method bodies and leaves the rest of the batch as it found it:
the names of the map, their order, and every class but for the bodies of its methods
(`ClassMap.ChangesBodies`). The passes that give one class a new body look the class up by its
name; they change the class found only because the map holds one class under each name.
`Pass.run_changesBodies` collects the six passes.
-/

namespace ClassKit

/-! ## Classes up to their method bodies -/

/-- The method with its body taken out. -/
def Method.withoutBody (method : Method) : Method := { method with body := none }

/-- The class with the bodies of its methods taken out: what the passes leave alone. -/
def Class.withoutBodies (cls : Class) : Class :=
  { cls with methods := cls.methods.map Method.withoutBody }

/-- `after` is `before` with at most its body changed. -/
def Method.SameButBody (before after : Method) : Prop := after.withoutBody = before.withoutBody

theorem Method.sameButBody_withBody (method : Method) (body : Option Body) :
    method.SameButBody { method with body } := rfl

@[simp] theorem Class.withoutBodies_name (cls : Class) : cls.withoutBodies.name = cls.name := rfl

/-- Lists related pointwise by equal images have equal images. -/
theorem map_eq_of_forall₂ {α β γ : Type} {f : α → γ} {g : β → γ} {first : List α} {second : List β}
    (related : List.Forall₂ (fun a b => g b = f a) first second) : second.map g = first.map f := by
  induction related with
  | nil => rfl
  | cons head _ ih => rw [List.map_cons, List.map_cons, head, ih]

/-- Methods that match one for one but for their bodies leave the class the same but for its
bodies. -/
theorem Class.withoutBodies_withMethods {cls : Class} {methods : List Method}
    (related : List.Forall₂ Method.SameButBody cls.methods methods) :
    ({ cls with methods } : Class).withoutBodies = cls.withoutBodies := by
  simp only [Class.withoutBodies, map_eq_of_forall₂ related]

/-- A fold that appends, for each item, one item it relates to. -/
theorem forall₂_foldl_of_appends {α β γ : Type} {R : α → β → Prop} {step : List β × γ → α → List β × γ}
    (appends : ∀ acc item, ∃ out, (step acc item).1 = acc.1 ++ [out] ∧ R item out) :
    ∀ {items passed : List α} {acc : List β × γ}, List.Forall₂ R passed acc.1 →
      List.Forall₂ R (passed ++ items) (items.foldl step acc).1
  | [], passed, acc, related => by simpa using related
  | item :: items, passed, acc, related => by
    obtain ⟨out, appended, relatedOut⟩ := appends acc item
    rw [List.foldl_cons, ← List.singleton_append, ← List.append_assoc]
    refine forall₂_foldl_of_appends appends ?_
    rw [appended]
    exact List.rel_append related (.cons relatedOut .nil)

theorem forall₂_foldl_nil_of_appends {α β γ : Type} {R : α → β → Prop} {step : List β × γ → α → List β × γ}
    (appends : ∀ acc item, ∃ out, (step acc item).1 = acc.1 ++ [out] ∧ R item out)
    (items : List α) (state : γ) : List.Forall₂ R items (items.foldl step ([], state)).1 := by
  simpa using forall₂_foldl_of_appends appends (show List.Forall₂ R [] (([] : List β), state).1 from .nil)

/-! ## Maps whose classes change only in their bodies -/

namespace ClassMap

/-- The names of a map, in order. -/
def keys (classes : ClassMap) : List BinaryName := classes.map (·.1)

/-- Every class of the map sits under its own name. -/
def Keyed (classes : ClassMap) : Prop := ∀ entry ∈ classes, entry.2.name = entry.1

/-- Two entries under one name, holding classes that are the same but for their method
bodies. -/
def SameEntry (entry entry' : BinaryName × Class) : Prop :=
  entry'.1 = entry.1 ∧ entry'.2.withoutBodies = entry.2.withoutBodies

/-- `after` holds the classes of `before` under the same names, in the same order, with at most
their method bodies changed. -/
def ChangesBodies (before after : ClassMap) : Prop := List.Forall₂ SameEntry before after

theorem sameEntry_withMethods {name : BinaryName} {cls : Class} {methods : List Method}
    (related : List.Forall₂ Method.SameButBody cls.methods methods) :
    SameEntry (name, cls) (name, { cls with methods }) :=
  ⟨rfl, Class.withoutBodies_withMethods related⟩

theorem ChangesBodies.refl (classes : ClassMap) : ChangesBodies classes classes :=
  List.forall₂_same.mpr fun _ _ => ⟨rfl, rfl⟩

theorem ChangesBodies.trans {first second third : ClassMap} (changed : ChangesBodies first second)
    (changedAgain : ChangesBodies second third) : ChangesBodies first third := by
  induction changed generalizing third with
  | nil => cases changedAgain; exact .nil
  | cons head _ ih =>
    cases changedAgain with
    | cons head' tail' =>
      exact .cons ⟨head'.1.trans head.1, head'.2.trans head.2⟩ (ih tail')

theorem ChangesBodies.keys {before after : ClassMap} (changed : ChangesBodies before after) :
    after.keys = before.keys :=
  map_eq_of_forall₂ (changed.imp fun _ _ same => same.1)

theorem ChangesBodies.keyed {before after : ClassMap} (changed : ChangesBodies before after)
    (keyed : before.Keyed) : after.Keyed := by
  intro entry' member
  obtain ⟨entry, entryMember, same⟩ := forall₂_mem_right changed member
  rw [same.1, ← Class.withoutBodies_name, same.2, Class.withoutBodies_name]
  exact keyed entry entryMember

/-- In a map with one class under each name, looking a name up finds its class. -/
theorem find?_of_mem {classes : ClassMap} (distinct : classes.keys.Nodup) {name : BinaryName}
    {cls : Class} (member : (name, cls) ∈ classes) : classes.find? name = some cls := by
  induction classes with
  | nil => cases member
  | cons entry rest ih =>
    obtain ⟨key, existing⟩ := entry
    obtain ⟨notInRest, restDistinct⟩ := List.nodup_cons.mp distinct
    rcases List.mem_cons.mp member with same | later
    · cases same
      simp [find?, List.lookup]
    · have different : name ≠ key := by
        rintro rfl
        exact notInRest (List.mem_map.mpr ⟨_, later, rfl⟩)
      simpa [find?, List.lookup, beq_false_of_ne different] using ih restDistinct later

/-- Replacing the class found under a name by one that differs in its bodies changes only
bodies. -/
theorem replace_changesBodies {classes : ClassMap} (distinct : classes.keys.Nodup)
    {name : BinaryName} {cls cls' : Class} (found : classes.find? name = some cls)
    (changed : cls'.withoutBodies = cls.withoutBodies) :
    ChangesBodies classes (classes.replace name cls') := by
  unfold replace
  refine List.forall₂_map_right_iff.mpr
    (List.forall₂_same.mpr fun ⟨other, existing⟩ member => ?_)
  dsimp only
  split
  · rename_i same
    have same : other = name := by simpa using same
    subst same
    -- the map holds one class under the name: the one found
    have isFound : existing = cls := Option.some.inj ((find?_of_mem distinct member).symm.trans found)
    subst isFound
    exact ⟨rfl, changed⟩
  · exact ⟨rfl, rfl⟩

end ClassMap

/-! ## Steps of a patch run -/

namespace PatchM

variable {α : Type} {post : α → Prop}

theorem ofClass_meets {action : LogExcept ClassError α} (meets : Meets (fun _ => True) post action) :
    StateMeets (fun _ => True) post (ofClass action) := by
  intro warnings
  have paired : Meets (fun _ => True) (fun result : α × Array Warning => post result.1)
      ((·, warnings) <$> action) := Meets.map meets
  exact paired.adapt fun _ _ => trivial

theorem fail_meets {err : PatchError} : StateMeets (fun _ => True) post (fail err : PatchM α) :=
  fun _ _ => trivial

end PatchM

/-! ## Each pass -/

theorem Class.replaceBody_sameButBody (info : MethodInfo) (body : Body) :
    ∀ methods : List Method, List.Forall₂ Method.SameButBody methods (replaceBody info body methods)
  | [] => .nil
  | method :: rest => by
    unfold replaceBody
    split
    · exact .cons (Method.sameButBody_withBody method _) (List.forall₂_same.mpr fun _ _ => rfl)
    · exact .cons rfl (replaceBody_sameButBody info body rest)

/-- Forwarding a variant changes one method body of the class and nothing else. -/
theorem Class.forwardVariant_withoutBodies {cls forwarded : Class} {original variant : MethodInfo}
    (forwardedOk : cls.forwardVariant original variant = .ok forwarded) :
    forwarded.withoutBodies = cls.withoutBodies := by
  unfold Class.forwardVariant at forwardedOk
  dsimp only at forwardedOk
  -- five checks that may refuse, then the class with the new body
  split at forwardedOk
  · split at forwardedOk
    · cases forwardedOk
    · split at forwardedOk
      · split at forwardedOk
        · cases forwardedOk
        · split at forwardedOk
          · cases forwardedOk
          · obtain ⟨body, -, built⟩ := bind_eq_ok forwardedOk
            cases built
            exact withoutBodies_withMethods (replaceBody_sameButBody variant body cls.methods)
      · cases forwardedOk
  · cases forwardedOk

namespace Passes

open ClassMap

theorem shiftMask_changesBodies (classes : ClassMap) :
    Yields (ChangesBodies classes) (shiftMask classes) := by
  unfold shiftMask
  refine Yields.mapM fun ⟨name, cls⟩ _ => ?_
  dsimp only
  generalize folded : List.foldl _ (([] : List Method), 0) cls.methods = result
  -- the fold keeps each method, masking the body of one that has a body
  have related : List.Forall₂ Method.SameButBody cls.methods result.1 := by
    rw [← folded]
    exact forall₂_foldl_nil_of_appends (fun _ _ => by split <;> exact ⟨_, rfl, rfl⟩) _ _
  split
  · exact Yields.after fun _ => Yields.pure (sameEntry_withMethods related)
  · exact Yields.pure (sameEntry_withMethods related)

theorem platformFix_changesBodies (fix : PlatformFix) (classes : ClassMap) :
    StateMeets (fun _ => True) (ChangesBodies classes) (platformFix fix classes) := by
  unfold platformFix
  -- the fold appends one entry per class, with the calls of at most one method replaced
  refine (StateMeets.foldlM_through
    (fun passed (acc : ClassMap × Nat) => ChangesBodies passed acc.1) ?_
    (ChangesBodies.refl [])).bind fun ⟨result, patched⟩ related => ?_
  · rintro ⟨acc, patched⟩ passed ⟨name, cls⟩ related
    dsimp only
    generalize folded : List.foldl _ (([] : List Method), (none : Option Nat)) cls.methods = result
    -- the fold keeps each method, with the calls replaced in the first one of the name
    have kept : List.Forall₂ Method.SameButBody cls.methods result.1 := by
      rw [← folded]
      exact forall₂_foldl_nil_of_appends (fun _ _ => by split <;> (try split) <;> exact ⟨_, rfl, rfl⟩) _ _
    have appended : ChangesBodies (passed ++ [(name, cls)])
        (acc ++ [(name, { cls with methods := result.1 })]) :=
      List.rel_append related (.cons (sameEntry_withMethods kept) .nil)
    split
    · exact StateMeets.after fun _ => StateMeets.pure appended
    · exact StateMeets.pure appended
  · dsimp only
    split
    · exact StateMeets.after fun _ => StateMeets.pure related
    · exact StateMeets.pure related

theorem deadMath_changesBodies (classes : ClassMap) :
    Yields (ChangesBodies classes) (deadMath classes) := by
  unfold deadMath mapBodies
  refine Yields.mapM fun ⟨name, cls⟩ _ => ?_
  -- every method keeps all but its body
  refine (Yields.mapM (R := Method.SameButBody) fun method _ => ?_).bind fun methods related =>
    Yields.pure (sameEntry_withMethods related)
  split
  · exact Yields.after fun _ => Yields.pure rfl
  · exact Yields.pure rfl

theorem opaquePredicates_changesBodies (sentinel : FieldRef) (classes : ClassMap) :
    StateMeets (fun _ => True) (ChangesBodies classes) (opaquePredicates sentinel classes) := by
  unfold opaquePredicates
  refine StateMeets.mapM fun ⟨name, cls⟩ _ => ?_
  -- every method keeps all but its body; the problems found become warnings
  refine (StateMeets.mapM (R := Method.SameButBody) fun method _ => ?_).bind
    fun methods related => StateMeets.pure (sameEntry_withMethods related)
  split
  · exact StateMeets.after fun _ => StateMeets.after fun _ => StateMeets.pure rfl
  · exact StateMeets.pure rfl

theorem keyReplacement_changesBodies (settings : Settings) {classes : ClassMap}
    (distinct : classes.keys.Nodup) :
    StateMeets (fun _ => True) (ChangesBodies classes) (keyReplacement settings classes) := by
  unfold keyReplacement
  refine StateMeets.foldlM (ChangesBodies.refl classes) fun acc ⟨location, value⟩ _ changed => ?_
  dsimp only
  split
  · rename_i cls found
    -- the first initializer gets the new body and every other method stays as it is
    have replaced : ∀ methods, List.Forall₂ Method.SameButBody cls.methods methods →
        ChangesBodies classes (acc.replace location.className { cls with methods }) :=
      fun _ related => changed.trans (replace_changesBodies (changed.keys ▸ distinct) found
        (Class.withoutBodies_withMethods related))
    split
    · split
      · exact StateMeets.bind (Q := fun _ => False) PatchM.fail_meets fun _ never => never.elim
      · exact StateMeets.after fun _ => StateMeets.pure
          (replaced _ (forall₂_foldl_nil_of_appends (fun _ _ => by split <;> exact ⟨_, rfl, rfl⟩) _ _))
    · exact PatchM.fail_meets
  · exact PatchM.fail_meets

theorem methodVariants_changesBodies (variants : List (BinaryName × List MethodVariants))
    {classes : ClassMap} (distinct : classes.keys.Nodup) :
    StateMeets (fun _ => True) (ChangesBodies classes) (methodVariants variants classes) := by
  unfold methodVariants
  refine StateMeets.foldlM (ChangesBodies.refl classes) fun acc ⟨className, entries⟩ _ changed => ?_
  dsimp only
  split
  · exact StateMeets.after fun _ => StateMeets.pure changed
  · rename_i cls found
    -- every forwarding changes one body of the class found
    refine StateMeets.bind (Q := fun forwarded : Class => forwarded.withoutBodies = cls.withoutBodies)
      (StateMeets.foldlM rfl fun _ entry _ same => StateMeets.foldlM same fun current variant _ same => ?_)
      fun forwarded same => StateMeets.pure
        (changed.trans (replace_changesBodies (changed.keys ▸ distinct) found same))
    split
    · rename_i forwarded forwardedOk
      exact StateMeets.after fun _ =>
        StateMeets.pure ((Class.forwardVariant_withoutBodies forwardedOk).trans same)
    · exact StateMeets.after fun _ => StateMeets.pure same

end Passes

/-- Every pass, run over a map with one class under each name, changes only method bodies. -/
theorem Pass.run_changesBodies (settings : Settings) {classes : ClassMap}
    (distinct : classes.keys.Nodup) :
    ∀ pass : Pass, StateMeets (fun _ => True) (ClassMap.ChangesBodies classes)
      (pass.run settings classes)
  | .shiftMask => StateMeets.ofLog (Passes.shiftMask_changesBodies classes)
  | .platformFix => Passes.platformFix_changesBodies _ classes
  | .deadMath => StateMeets.ofLog (Passes.deadMath_changesBodies classes)
  | .opaquePredicates => Passes.opaquePredicates_changesBodies _ classes
  | .keyReplacement => Passes.keyReplacement_changesBodies settings distinct
  | .methodVariants => Passes.methodVariants_changesBodies _ distinct

end ClassKit
