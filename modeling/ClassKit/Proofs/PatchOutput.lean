import ClassKit.Proofs.PassBodies

/-!
# What a patch run writes

A patch run reads a batch of class files into a map from class names to classes, runs its passes
over the map, and writes each class again under its new name (`patch_writes_declared_classes`):

* reading keeps, in increasing order of name, one class for each name the batch declares: the
  last class declaring it (`lastDeclared`);
* the passes, run in order over that map, change only method bodies (`ClassMap.ChangesBodies`);
* each class is written from its renamed class, under the new name the mappings give it, after
  verification when it is on. Where the mappings tell the declared names apart, the names
  written differ.

That the bytes written decode again is not part of it: writing succeeds on classes that reading
rejects, such as a jump to a label at the very end of the code, which a pass can leave behind.
-/

namespace ClassKit

/-! ## Sorted maps of classes -/

/-- Names strictly increasing by their text. -/
def NamesIncrease (names : List BinaryName) : Prop :=
  names.Pairwise fun first second => first.text < second.text

theorem NamesIncrease.nodup {names : List BinaryName} (increase : NamesIncrease names) :
    names.Nodup := by
  show names.Pairwise (· ≠ ·)
  refine increase.imp fun {first second} less same => ?_
  rw [same] at less
  exact lt_irrefl second.text less

theorem ClassMap.mem_keys {classes : ClassMap} {name : BinaryName} :
    name ∈ classes.keys ↔ (classes.find? name).isSome := by
  simp [keys, find?, List.lookup_isSome_iff]

/-! ## Inserting into a sorted map -/

section Insert

variable {β : Type}

/-- `insertSorted` compares names by their text: names of one text are one name. -/
theorem BinaryName.eq_of_text_beq {name other : BinaryName}
    (same : (name.text == other.text) = true) : name = other := by
  cases name
  cases other
  simpa using same

theorem mem_insertSorted {key : BinaryName} {value : β} :
    ∀ {entries : List (BinaryName × β)} {entry : BinaryName × β},
      entry ∈ insertSorted key value entries → entry = (key, value) ∨ entry ∈ entries
  | [], _, member => by simpa [insertSorted] using member
  | (other, existing) :: rest, entry, member => by
    unfold insertSorted at member
    split at member
    · simpa using member
    · split at member
      · rcases List.mem_cons.mp member with rfl | later
        · exact .inl rfl
        · exact .inr (List.mem_cons_of_mem _ later)
      · rcases List.mem_cons.mp member with rfl | later
        · exact .inr List.mem_cons_self
        · rcases mem_insertSorted later with same | inRest
          · exact .inl same
          · exact .inr (List.mem_cons_of_mem _ inRest)

theorem keys_insertSorted {key : BinaryName} {value : β} :
    ∀ {entries : List (BinaryName × β)} {name : BinaryName},
      name ∈ (insertSorted key value entries).map (·.1) ↔ name = key ∨ name ∈ entries.map (·.1)
  | [], name => by simp [insertSorted]
  | (other, existing) :: rest, name => by
    unfold insertSorted
    split
    · simp
    · split
      · rename_i _ same
        cases BinaryName.eq_of_text_beq same
        simp
      · simp only [List.map_cons, List.mem_cons, keys_insertSorted]
        tauto

theorem insertSorted_increase {key : BinaryName} {value : β} :
    ∀ {entries : List (BinaryName × β)}, NamesIncrease (entries.map (·.1)) →
      NamesIncrease ((insertSorted key value entries).map (·.1))
  | [], _ => by simp [insertSorted, NamesIncrease]
  | (other, existing) :: rest, sorted => by
    have ⟨above, restSorted⟩ := List.pairwise_cons.mp sorted
    unfold insertSorted
    split
    · rename_i below
      refine List.pairwise_cons.mpr ⟨fun name member => ?_, sorted⟩
      rcases List.mem_cons.mp member with rfl | later
      · exact below
      · exact lt_trans below (above name later)
    · split
      · rename_i _ same
        cases BinaryName.eq_of_text_beq same
        exact List.pairwise_cons.mpr ⟨above, restSorted⟩
      · rename_i notBelow notSame
        -- the new key comes after `other`
        have after : other.text < key.text := by
          rcases lt_trichotomy key.text other.text with less | equal | greater
          · exact absurd less notBelow
          · exact absurd (by simp [equal]) notSame
          · exact greater
        refine List.pairwise_cons.mpr ⟨fun name member => ?_, insertSorted_increase restSorted⟩
        rcases keys_insertSorted.mp member with rfl | later
        · exact after
        · exact above name later

/-- Looking a name up after inserting: the inserted value under its key, as before elsewhere. -/
theorem lookup_insertSorted {key : BinaryName} {value : β} :
    ∀ {entries : List (BinaryName × β)} {name : BinaryName},
      (insertSorted key value entries).lookup name =
        if name = key then some value else entries.lookup name
  | [], name => by
    by_cases atKey : name = key <;> simp [insertSorted, List.lookup, atKey, beq_false_of_ne]
  | (other, existing) :: rest, name => by
    unfold insertSorted
    split
    · by_cases atKey : name = key <;> simp [List.lookup, atKey, beq_false_of_ne]
    · split
      · rename_i _ same
        cases BinaryName.eq_of_text_beq same
        by_cases atKey : name = key <;> simp [List.lookup, atKey, beq_false_of_ne]
      · rename_i _ notSame
        have different : other ≠ key := by
          rintro rfl
          simp at notSame
        by_cases atOther : name = other
        · subst atOther
          simp [List.lookup, different]
        · simp [List.lookup, beq_false_of_ne atOther, lookup_insertSorted]

end Insert

/-! ## Reading a batch -/

/-- The last of the classes `decoded` that declares `name`: the one a batch keeps. -/
def lastDeclared (decoded : List Class) (name : BinaryName) : Option Class :=
  decoded.reverse.find? (·.name == name)

theorem lastDeclared_append_singleton (decoded : List Class) (cls : Class) (name : BinaryName) :
    lastDeclared (decoded ++ [cls]) name =
      if cls.name = name then some cls else lastDeclared decoded name := by
  by_cases declares : cls.name = name <;> simp [lastDeclared, declares]

theorem lastDeclared_isSome {decoded : List Class} {name : BinaryName} :
    (lastDeclared decoded name).isSome ↔ ∃ cls ∈ decoded, cls.name = name := by
  simp [lastDeclared, List.find?_isSome]

/-- A map read from the classes `decoded`: sorted by name, each class under its own name, and
under each name the last of the classes declaring it. -/
structure Loaded (decoded : List Class) (classes : ClassMap) : Prop where
  increase : NamesIncrease classes.keys
  keyed : classes.Keyed
  lookup : ∀ name, classes.find? name = lastDeclared decoded name

theorem Loaded.empty : Loaded [] ([] : ClassMap) where
  increase := List.Pairwise.nil
  keyed _ member := nomatch member
  lookup _ := rfl

/-- The names of a loaded map are the names its classes declare. -/
theorem Loaded.names {decoded : List Class} {classes : ClassMap} (loaded : Loaded decoded classes)
    (name : BinaryName) : name ∈ classes.keys ↔ ∃ cls ∈ decoded, cls.name = name := by
  rw [ClassMap.mem_keys, loaded.lookup, lastDeclared_isSome]

/-- Reading one more class puts it under its name, replacing a class of the same name. -/
theorem Loaded.insert {decoded : List Class} {classes : ClassMap} (loaded : Loaded decoded classes)
    (cls : Class) : Loaded (decoded ++ [cls]) (insertSorted cls.name cls classes) where
  increase := insertSorted_increase loaded.increase
  keyed entry member := by
    rcases mem_insertSorted member with rfl | earlier
    · rfl
    · exact loaded.keyed entry earlier
  lookup name := by
    rw [ClassMap.find?, lookup_insertSorted, ← ClassMap.find?, loaded.lookup,
      lastDeclared_append_singleton]
    simp only [eq_comm]

theorem loadClass_meets (classes : ClassMap) (bytes : List UInt8) :
    StateMeets (fun _ => True)
      (fun next => ∃ cls, Returns (Class.decode bytes) cls ∧ next = insertSorted cls.name cls classes)
      (loadClass classes bytes) := by
  unfold loadClass
  refine (PatchM.ofClass_meets Meets.returns).bind fun cls decodes => ?_
  dsimp only
  split
  · exact StateMeets.after fun _ => StateMeets.pure ⟨cls, decodes, rfl⟩
  · exact StateMeets.pure ⟨cls, decodes, rfl⟩

/-- Reading a batch into a map that holds the classes `earlier` reads the classes of its files
after them. -/
theorem loadClasses_meets :
    ∀ (files : List (List UInt8)) {earlier : List Class} {classes : ClassMap},
      Loaded earlier classes →
      StateMeets (fun _ => True)
        (fun loaded => ∃ decoded, List.Forall₂ (fun bytes cls => Returns (Class.decode bytes) cls)
          files decoded ∧ Loaded (earlier ++ decoded) loaded)
        (files.foldlM loadClass classes)
  | [], earlier, classes, loaded => StateMeets.pure ⟨[], .nil, by simpa using loaded⟩
  | bytes :: files, earlier, classes, loaded => by
    rw [List.foldlM_cons]
    refine (loadClass_meets classes bytes).bind fun next ⟨cls, decodes, same⟩ => ?_
    subst same
    refine (loadClasses_meets files (loaded.insert cls)).mono (fun _ => id) ?_
    rintro result ⟨decoded, decodedRest, loadedRest⟩
    exact ⟨cls :: decoded, .cons decodes decodedRest, by simpa using loadedRest⟩

/-! ## Running the passes -/

/-- Some run of a step of a patch run, from some warnings and journal, returns `value`. -/
def RunsTo {α : Type} (action : PatchM α) (value : α) : Prop :=
  ∃ warnings warnings', Returns (action.run warnings) (value, warnings')

theorem StateMeets.runsTo {α : Type} (action : PatchM α) :
    StateMeets (fun _ => True) (RunsTo action) action := fun warnings =>
  Meets.returns.mono (fun _ => id) fun result returned => ⟨warnings, result.2, returned⟩

/-- The passes, run in order over `classes`, can end with `final`. -/
def PassesTake (settings : Settings) : List Pass → ClassMap → ClassMap → Prop
  | [], classes, final => final = classes
  | pass :: rest, classes, final =>
    ∃ middle, RunsTo (pass.run settings classes) middle ∧ PassesTake settings rest middle final

/-- One more pass after a run of passes. -/
theorem PassesTake.snoc {settings : Settings} {passes : List Pass} {classes middle final : ClassMap}
    {pass : Pass} (taken : PassesTake settings passes classes middle)
    (ran : RunsTo (pass.run settings middle) final) :
    PassesTake settings (passes ++ [pass]) classes final := by
  induction passes generalizing classes with
  | nil =>
    cases taken
    exact ⟨final, ran, rfl⟩
  | cons first rest ih =>
    obtain ⟨next, ranFirst, restTaken⟩ := taken
    exact ⟨next, ranFirst, ih restTaken⟩

/-! ## Writing the classes -/

/-- How a patch run writes the class it holds under a name: under the new name the mappings
give, with the bytes of the renamed class, the class having passed verification when it is on. -/
def WrittenAs (settings : Settings) (entry : BinaryName × Class) (written : PatchedClass) : Prop :=
  written.name = renameBy settings.mappings entry.1 ∧
    (settings.verify = true → Returns entry.2.verify ()) ∧
    Returns (entry.2.rename (renameBy settings.mappings)).encode written.bytes

theorem finishClass_meets (settings : Settings) (cls : Class) :
    StateMeets (fun _ => True) (WrittenAs settings (cls.name, cls)) (finishClass settings cls) := by
  unfold finishClass
  -- after the verification, if any, the renamed class is written
  have writes : (settings.verify = true → Returns cls.verify ()) →
      StateMeets (fun _ => True) (WrittenAs settings (cls.name, cls)) (do
        let bytes ← PatchM.ofClass (cls.rename (renameBy settings.mappings)).encode
        pure { name := (cls.rename (renameBy settings.mappings)).name, bytes }) := fun verified =>
    (PatchM.ofClass_meets Meets.returns).bind
      fun _ encodes => StateMeets.pure ⟨rfl, verified, encodes⟩
  dsimp only
  split
  · exact (PatchM.ofClass_meets Meets.returns).bind fun _ returned => writes fun _ => returned
  · rename_i off
    exact writes fun on => absurd on off

theorem finishClasses_meets (settings : Settings) {classes : ClassMap} (keyed : classes.Keyed) :
    StateMeets (fun _ => True) (List.Forall₂ (WrittenAs settings) classes)
      (finishClasses settings classes) := by
  unfold finishClasses
  refine StateMeets.mapM fun ⟨name, cls⟩ member => ?_
  have named : cls.name = name := keyed _ member
  exact (finishClass_meets settings cls).mono (fun _ => id) fun _ written => named ▸ written

theorem writtenAs_names {settings : Settings} {classes : ClassMap} {patched : List PatchedClass}
    (written : List.Forall₂ (WrittenAs settings) classes patched) :
    patched.map (·.name) = classes.keys.map (renameBy settings.mappings) := by
  rw [ClassMap.keys, List.map_map]
  exact map_eq_of_forall₂ (written.imp fun _ _ same => same.1)

/-! ## A whole run -/

/-- What a patch run of `settings` writes for a batch of class files. The files hold the classes
`decoded`. Reading them gives `loaded`: in increasing order of name, one entry for each name they
declare, holding the last class declaring it. The passes take `loaded` to `final`, changing only
method bodies, and the run writes each class of `final` as `WrittenAs` says. Where the mappings
tell the declared names apart, the names written differ. -/
def WritesDeclared (settings : Settings) (files : List (List UInt8))
    (patched : List PatchedClass) : Prop :=
  ∃ decoded : List Class,
    List.Forall₂ (fun bytes cls => Returns (Class.decode bytes) cls) files decoded ∧
    ∃ loaded final : ClassMap, NamesIncrease loaded.keys ∧
      (∀ name, name ∈ loaded.keys ↔ ∃ cls ∈ decoded, cls.name = name) ∧
      (∀ name, loaded.find? name = lastDeclared decoded name) ∧
      PassesTake settings Pass.all loaded final ∧ ClassMap.ChangesBodies loaded final ∧
      List.Forall₂ (WrittenAs settings) final patched ∧
      (Set.InjOn (renameBy settings.mappings) {name | ∃ cls ∈ decoded, cls.name = name} →
        (patched.map (·.name)).Nodup)

/-- The classes a run loads, runs the passes over and then writes, each step stated on its
own. -/
theorem writesDeclared_of_steps {settings : Settings} {files : List (List UInt8)}
    {decoded : List Class} {loaded final : ClassMap} {patched : List PatchedClass}
    (decodes : List.Forall₂ (fun bytes cls => Returns (Class.decode bytes) cls) files decoded)
    (declared : Loaded decoded loaded) (taken : PassesTake settings Pass.all loaded final)
    (changed : ClassMap.ChangesBodies loaded final)
    (written : List.Forall₂ (WrittenAs settings) final patched) :
    WritesDeclared settings files patched := by
  refine ⟨decoded, decodes, loaded, final, declared.increase, declared.names, declared.lookup,
    taken, changed, written, fun injective => ?_⟩
  rw [writtenAs_names written, changed.keys]
  refine declared.increase.nodup.map_on fun first firstMember second secondMember same => ?_
  exact injective ((declared.names first).mp firstMember) ((declared.names second).mp secondMember)
    same

/-- A patch run that succeeds reads, under each name its batch declares, the last class declaring
it, runs the passes over these classes in increasing order of name, changing only method bodies,
and writes each class under the new name the mappings give it, verified when verification is on
and written from its renamed class. -/
theorem patch_writes_declared_classes (settings : Settings) (files : List (List UInt8)) :
    Meets (fun _ => True) (fun result => WritesDeclared settings files result.1)
      (patch settings files) := by
  unfold patch
  refine Meets.bind (Q := fun result : List PatchedClass × Array Warning =>
    WritesDeclared settings files result.1) ?_ fun ⟨patched, warnings⟩ writes => Meets.pure writes
  refine (?_ : StateMeets (fun _ => True) (WritesDeclared settings files) _) #[]
  refine (loadClasses_meets files Loaded.empty).bind fun loaded ⟨decoded, decodes, declared⟩ => ?_
  rw [List.nil_append] at declared
  refine StateMeets.after fun _ => ?_
  -- the passes run in order over the loaded map, each changing only method bodies
  refine (StateMeets.foldlM_through (fun passed acc =>
      PassesTake settings passed loaded acc ∧ ClassMap.ChangesBodies loaded acc) ?_
    (show PassesTake settings [] loaded loaded ∧ _ from ⟨rfl, ClassMap.ChangesBodies.refl loaded⟩)).bind
    fun final ⟨taken, changed⟩ => ?_
  · rintro acc passed pass ⟨taken, changed⟩
    have distinct : acc.keys.Nodup := changed.keys ▸ declared.increase.nodup
    exact StateMeets.after fun _ =>
      ((Pass.run_changesBodies settings distinct pass).and (StateMeets.runsTo _)).mono (fun _ => id)
        fun _ ⟨changedNext, ran⟩ => ⟨taken.snoc ran, changed.trans changedNext⟩
  refine (finishClasses_meets settings (changed.keyed declared.keyed)).bind fun patched written => ?_
  -- the warnings are read and a summary logged
  exact StateMeets.after fun _ => StateMeets.after fun _ =>
    StateMeets.pure (writesDeclared_of_steps decodes declared taken changed written)

end ClassKit
