import ClassKit.Proofs.Utf8RoundTrip
import ClassKit.Error
import Mathlib.Tactic.SplitIfs

/-!
# Which bytes are modified UTF-8

A byte string is read as modified UTF-8 when it splits into *forms*, each carrying one UTF-16
code unit in its `x` bits:

* one byte `0xxxxxxx` from `01` to `7F`,
* two bytes `110xxxxx 10xxxxxx`,
* three bytes `1110xxxx 10xxxxxx 10xxxxxx`,

and the code units pair every surrogate. Reading accepts exactly these strings
(`decode_ok_iff_forms`). Writing gives each code unit its shortest form, NUL apart, which takes
two bytes so that no zero byte appears; so bytes read and written again come back unchanged
exactly when no form is overlong but the two byte form of NUL (`encode_decode_forms_iff`).

The argument runs through the two stages of reading. `toUnits_eq_ok_iff` says that splitting
bytes into code units succeeds exactly on a sequence of forms, and `ofUnits_ok_iff_paired` that
joining code units into characters succeeds exactly when surrogates pair. A form's first byte
fixes its length, so a byte string splits into forms in at most one way (`Form.split_unique`),
and a form is fixed by its length and its unit (`Form.ext`).
-/

namespace ClassKit.ModifiedUtf8

/-! ## Forms -/

/-- One form of modified UTF-8. -/
inductive Form : List UInt8 → Prop where
  /-- `0xxxxxxx`, zero excluded -/
  | one {b0 : UInt8} : 0x01 ≤ b0.toNat → b0.toNat ≤ 0x7f → Form [b0]
  /-- `110xxxxx 10xxxxxx` -/
  | two {b0 b1 : UInt8} : b0.toNat / 0x20 = 0b110 → b1.toNat / 0x40 = 0b10 → Form [b0, b1]
  /-- `1110xxxx 10xxxxxx 10xxxxxx` -/
  | three {b0 b1 b2 : UInt8} : b0.toNat / 0x10 = 0b1110 → b1.toNat / 0x40 = 0b10 →
      b2.toNat / 0x40 = 0b10 → Form [b0, b1, b2]

/-- The code unit a form carries: its `x` bits, first byte first. -/
def formUnit : List UInt8 → Nat
  | [b0] => b0.toNat
  | [b0, b1] => b0.toNat % 0x20 * 0x40 + b1.toNat % 0x40
  | [b0, b1, b2] => b0.toNat % 0x10 * 0x1000 + b1.toNat % 0x40 * 0x40 + b2.toNat % 0x40
  | _ => 0

/-- A form is overlong when standard UTF-8 has a shorter form for its unit: a unit below `80`
in two bytes, or one below `800` in three. -/
def Overlong (form : List UInt8) : Prop :=
  (form.length = 2 ∧ formUnit form < 0x80) ∨ (form.length = 3 ∧ formUnit form < 0x800)

/-- UTF-16 code units in which every surrogate is paired: a high surrogate (`D800` to `DBFF`)
is directly followed by a low one (`DC00` to `DFFF`), and no low surrogate stands alone. -/
inductive Paired : List Nat → Prop where
  | nil : Paired []
  | single {unit : Nat} {rest : List Nat} : unit < 0xd800 ∨ 0xdfff < unit → Paired rest →
      Paired (unit :: rest)
  | pair {high low : Nat} {rest : List Nat} : 0xd800 ≤ high → high ≤ 0xdbff → 0xdc00 ≤ low →
      low ≤ 0xdfff → Paired rest → Paired (high :: low :: rest)

namespace Form

/-- What a form's length says about its unit. -/
theorem length_unit {form : List UInt8} (isForm : Form form) :
    (form.length = 1 ∧ 0x01 ≤ formUnit form ∧ formUnit form ≤ 0x7f) ∨
      (form.length = 2 ∧ formUnit form ≤ 0x7ff) ∨ (form.length = 3 ∧ formUnit form < 0x10000) := by
  cases isForm <;> simp only [formUnit, List.length_cons, List.length_nil, true_and] <;> omega

theorem unit_lt {form : List UInt8} (isForm : Form form) : formUnit form < 0x10000 := by
  rcases isForm.length_unit with ⟨-, -, small⟩ | ⟨-, small⟩ | ⟨-, small⟩ <;> omega

/-- A form is fixed by its length and the unit it carries. -/
theorem ext {form form' : List UInt8} (isForm : Form form) (isForm' : Form form')
    (sameLength : form.length = form'.length) (sameUnit : formUnit form = formUnit form') :
    form = form' := by
  cases isForm <;> cases isForm' <;> simp only [List.length_cons, List.length_nil] at sameLength
  all_goals
    simp only [formUnit] at sameUnit
    simp only [List.cons.injEq, ← UInt8.toNat_inj, and_true]
    omega

/-- Forms do not overlap: the first byte of a form says how long it is. -/
theorem append_inj {form form' rest rest' : List UInt8} (isForm : Form form)
    (isForm' : Form form') (same : form ++ rest = form' ++ rest') :
    form = form' ∧ rest = rest' := by
  have sameLength : form.length = form'.length := by
    cases isForm <;> cases isForm' <;>
      simp only [List.cons_append, List.nil_append, List.cons.injEq] at same <;>
      obtain ⟨rfl, -⟩ := same <;> simp only [List.length_cons, List.length_nil] <;> omega
  exact List.append_inj same sameLength

theorem ne_nil {form : List UInt8} (isForm : Form form) : form ≠ [] := by
  cases isForm <;> exact List.cons_ne_nil _ _

/-- A byte string splits into forms in at most one way. -/
theorem split_unique :
    ∀ {forms forms' : List (List UInt8)}, (∀ form ∈ forms, Form form) →
      (∀ form ∈ forms', Form form) → forms.flatten = forms'.flatten → forms = forms'
  | [], [], _, _, _ => rfl
  | [], form :: _, _, allForms', same => by
    have empty := List.append_eq_nil_iff.mp (same.symm.trans List.flatten_nil)
    exact absurd empty.1 (allForms' form List.mem_cons_self).ne_nil
  | form :: _, [], allForms, _, same => by
    have empty := List.append_eq_nil_iff.mp (same.trans List.flatten_nil)
    exact absurd empty.1 (allForms form List.mem_cons_self).ne_nil
  | form :: rest, form' :: rest', allForms, allForms', same => by
    rw [List.flatten_cons, List.flatten_cons] at same
    obtain ⟨rfl, restSame⟩ := (allForms form List.mem_cons_self).append_inj
      (allForms' form' List.mem_cons_self) same
    rw [split_unique (fun other member => allForms other (List.mem_cons_of_mem form member))
      (fun other member => allForms' other (List.mem_cons_of_mem form member)) restSame]

end Form

/-! ## The forms that writing produces -/

theorem length_unitBytes (unit : Nat) :
    (unitBytes unit).length =
      if 0x01 ≤ unit ∧ unit ≤ 0x7f then 1 else if unit ≤ 0x7ff then 2 else 3 := by
  unfold unitBytes
  by_cases one : 0x01 ≤ unit ∧ unit ≤ 0x7f
  · have one' : (0x01 ≤ unit && unit ≤ 0x7f) = true := by simp; omega
    rw [if_pos one', if_pos one]
    rfl
  · have one' : (0x01 ≤ unit && unit ≤ 0x7f) = false := by simp; omega
    rw [if_neg (ne_true_of_eq_false one'), if_neg one]
    split <;> rfl

/-- Writing a code unit gives a form that carries it. -/
theorem form_unitBytes {unit : Nat} (small : unit < 0x10000) :
    Form (unitBytes unit) ∧ formUnit (unitBytes unit) = unit := by
  unfold unitBytes
  by_cases one : 0x01 ≤ unit ∧ unit ≤ 0x7f
  · have one' : (0x01 ≤ unit && unit ≤ 0x7f) = true := by simp; omega
    have byte := toNat_toUInt8 (show unit < 0x100 by omega)
    rw [if_pos one', formUnit, byte]
    exact ⟨.one (by rw [byte]; omega) (by rw [byte]; omega), rfl⟩
  · have one' : (0x01 ≤ unit && unit ≤ 0x7f) = false := by simp; omega
    simp only [one', Bool.false_eq_true, if_false]
    by_cases two : unit ≤ 0x7ff
    · have lead := toNat_toUInt8 (show 0xc0 + unit / 0x40 < 0x100 by omega)
      have follow := toNat_toUInt8 (show 0x80 + unit % 0x40 < 0x100 by omega)
      simp only [two, if_true, formUnit, lead, follow]
      exact ⟨.two (by rw [lead]; omega) (by rw [follow]; omega), by omega⟩
    · have lead := toNat_toUInt8 (show 0xe0 + unit / 0x1000 < 0x100 by omega)
      have follow₁ := toNat_toUInt8 (show 0x80 + unit / 0x40 % 0x40 < 0x100 by omega)
      have follow₂ := toNat_toUInt8 (show 0x80 + unit % 0x40 < 0x100 by omega)
      simp only [two, if_false, formUnit, lead, follow₁, follow₂]
      exact ⟨.three (by rw [lead]; omega) (by rw [follow₁]; omega) (by rw [follow₂]; omega),
        by omega⟩

/-- The two byte form of NUL. -/
theorem form_nul : Form [0xc0, 0x80] := .two (by decide) (by decide)

/-- A form is written back as it stands exactly when it is not overlong, or is the two byte
form of NUL. -/
theorem unitBytes_formUnit_eq_iff {form : List UInt8} (isForm : Form form) :
    unitBytes (formUnit form) = form ↔ (Overlong form → form = [0xc0, 0x80]) := by
  obtain ⟨written, carries⟩ := form_unitBytes isForm.unit_lt
  -- both sides are forms carrying the same unit, so only their lengths can differ
  have sameIff : unitBytes (formUnit form) = form ↔
      (unitBytes (formUnit form)).length = form.length :=
    ⟨fun same => by rw [same], fun sameLength => written.ext isForm sameLength carries⟩
  have nulIff : form = [0xc0, 0x80] ↔ form.length = 2 ∧ formUnit form = 0 :=
    ⟨fun nul => by subst nul; decide,
      fun ⟨two, zero⟩ => isForm.ext form_nul two (by rw [zero]; decide)⟩
  rw [sameIff, nulIff, length_unitBytes, Overlong]
  rcases isForm.length_unit with ⟨length, low, high⟩ | ⟨length, small⟩ | ⟨length, small⟩ <;>
    rw [length] <;> split_ifs <;> omega

/-! ## Bytes to code units -/

theorem map_cons_eq_ok {ε α : Type} {head : α} {result : Except ε (List α)} {values : List α}
    (mapped : result.map (head :: ·) = .ok values) :
    ∃ rest, result = .ok rest ∧ values = head :: rest := by
  cases result with
  | error err => cases mapped
  | ok rest =>
    cases mapped
    exact ⟨rest, rfl, rfl⟩

/-- `bytes` splits into forms carrying `codeUnits`. -/
def SplitsInto (bytes : List UInt8) (codeUnits : List Nat) : Prop :=
  ∃ forms : List (List UInt8), (∀ form ∈ forms, Form form) ∧ forms.flatten = bytes ∧
    forms.map formUnit = codeUnits

theorem SplitsInto.cons {form rest : List UInt8} {codeUnits : List Nat} (isForm : Form form)
    (splits : SplitsInto rest codeUnits) : SplitsInto (form ++ rest) (formUnit form :: codeUnits) := by
  obtain ⟨forms, allForms, flat, carried⟩ := splits
  refine ⟨form :: forms, fun other member => ?_, by rw [List.flatten_cons, flat],
    by rw [List.map_cons, carried]⟩
  rcases List.mem_cons.mp member with rfl | later
  · exact isForm
  · exact allForms other later

theorem splitsInto_of_toUnits {bytes : List UInt8} {offset : Nat} {codeUnits : List Nat}
    (read : toUnits bytes offset = .ok codeUnits) : SplitsInto bytes codeUnits := by
  fun_induction toUnits bytes offset generalizing codeUnits with
  | case1 =>
    cases read
    exact ⟨[], ⟨by simp, rfl, rfl⟩⟩
  | case2 b0 rest offset lead ascii =>
    rename_i more
    obtain ⟨restUnits, restRead, rfl⟩ := map_cons_eq_ok read
    simp only [Bool.and_eq_true, decide_eq_true_eq, bne_iff_ne, ne_eq, lead] at ascii
    exact (more restRead).cons (show Form [b0] from .one (by omega) (by omega))
  | case3 b0 offset lead notOne isTwo b1 rest follows =>
    rename_i more
    obtain ⟨restUnits, restRead, rfl⟩ := map_cons_eq_ok read
    simp only [beq_iff_eq, lead] at isTwo
    simp only [isContinuation, beq_iff_eq] at follows
    exact (more restRead).cons (show Form [b0, b1] from .two isTwo follows)
  | case6 b0 offset lead notOne notTwo isThree b1 b2 rest follows =>
    rename_i more
    obtain ⟨restUnits, restRead, rfl⟩ := map_cons_eq_ok read
    simp only [beq_iff_eq, lead] at isThree
    simp only [isContinuation, Bool.and_eq_true, beq_iff_eq] at follows
    exact (more restRead).cons
      (show Form [b0, b1, b2] from .three isThree follows.1 follows.2)
  | case4 | case5 | case7 | case8 | case9 => cases read

theorem toUnits_of_splitsInto {bytes : List UInt8} {codeUnits : List Nat}
    (splits : SplitsInto bytes codeUnits) (offset : Nat) : toUnits bytes offset = .ok codeUnits := by
  obtain ⟨forms, allForms, rfl, rfl⟩ := splits
  induction forms generalizing offset with
  | nil => rfl
  | cons form rest more =>
    have restForms := fun other member => allForms other (List.mem_cons_of_mem form member)
    rw [List.flatten_cons, List.map_cons]
    cases allForms form List.mem_cons_self with
    | one low high =>
      rw [List.singleton_append, toUnits_one _ _ (by omega), more _ restForms]
      rfl
    | two lead follow =>
      rw [List.cons_append, List.singleton_append, toUnits_two _ _ lead follow, more _ restForms]
      rfl
    | three lead follow₁ follow₂ =>
      rw [List.cons_append, List.cons_append, List.singleton_append,
        toUnits_three _ _ lead follow₁ follow₂, more _ restForms]
      rfl

/-- Splitting bytes into code units succeeds exactly on a sequence of forms. -/
theorem toUnits_eq_ok_iff (bytes : List UInt8) (offset : Nat) (codeUnits : List Nat) :
    toUnits bytes offset = .ok codeUnits ↔ SplitsInto bytes codeUnits :=
  ⟨splitsInto_of_toUnits, fun splits => toUnits_of_splitsInto splits offset⟩

/-! ## Code units to characters -/

theorem toNat_ofNat_of_valid {n : Nat} (valid : n.isValidChar) : (Char.ofNat n).toNat = n := by
  rw [Char.ofNat, dif_pos valid]
  rfl

theorem paired_of_ofUnits {codeUnits : List Nat} {chars : List Char}
    (read : ofUnits codeUnits = .ok chars) : Paired codeUnits := by
  fun_induction ofUnits codeUnits generalizing chars with
  | case1 => exact .nil
  | case2 high isHigh low rest isLow more =>
    obtain ⟨_, restRead, -⟩ := map_cons_eq_ok read
    simp only [Bool.and_eq_true, decide_eq_true_eq] at isHigh isLow
    exact .pair isHigh.1 isHigh.2 isLow.1 isLow.2 (more restRead)
  | case6 unit rest notHigh notLow more =>
    obtain ⟨_, restRead, -⟩ := map_cons_eq_ok read
    simp only [Bool.and_eq_true, decide_eq_true_eq, not_and, Nat.not_le] at notHigh notLow
    exact .single (by omega) (more restRead)
  | case3 | case4 | case5 => cases read

theorem ofUnits_of_paired {codeUnits : List Nat} (paired : Paired codeUnits) :
    ∃ chars, ofUnits codeUnits = .ok chars := by
  induction paired with
  | nil => exact ⟨[], rfl⟩
  | single plain _ more =>
    obtain ⟨chars, read⟩ := more
    exact ⟨_, by rw [ofUnits_single plain, read]; rfl⟩
  | pair highLow highHigh lowLow lowHigh _ more =>
    obtain ⟨chars, read⟩ := more
    exact ⟨_, by rw [ofUnits_pair ⟨highLow, highHigh⟩ ⟨lowLow, lowHigh⟩, read]; rfl⟩

/-- Joining code units into characters succeeds exactly when surrogates pair. -/
theorem ofUnits_ok_iff_paired (codeUnits : List Nat) :
    (∃ chars, ofUnits codeUnits = .ok chars) ↔ Paired codeUnits :=
  ⟨fun ⟨_, read⟩ => paired_of_ofUnits read, ofUnits_of_paired⟩

/-- Characters joined from code units give those code units back. -/
theorem flatMap_units_of_ofUnits {codeUnits : List Nat} {chars : List Char}
    (small : ∀ unit ∈ codeUnits, unit < 0x10000) (read : ofUnits codeUnits = .ok chars) :
    chars.flatMap units = codeUnits := by
  fun_induction ofUnits codeUnits generalizing chars with
  | case1 =>
    cases read
    rfl
  | case2 high isHigh low rest isLow more =>
    obtain ⟨restChars, restRead, rfl⟩ := map_cons_eq_ok read
    simp only [Bool.and_eq_true, decide_eq_true_eq] at isHigh isLow
    -- the pair joins into a character beyond the basic plane, which splits back into it
    have joined := toNat_ofNat_of_valid
      (n := 0x10000 + (high - 0xd800) * 0x400 + (low - 0xdc00)) (.inr (by omega))
    rw [List.flatMap_cons, units, joined, if_neg (by omega),
      more (fun unit member => small unit (by simp [member])) restRead]
    simp only [List.cons_append, List.nil_append, List.cons.injEq, and_true]
    omega
  | case6 unit rest notHigh notLow more =>
    obtain ⟨restChars, restRead, rfl⟩ := map_cons_eq_ok read
    simp only [Bool.and_eq_true, decide_eq_true_eq, not_and, Nat.not_le] at notHigh notLow
    have below := small unit List.mem_cons_self
    have same := toNat_ofNat_of_valid (n := unit) (by unfold Nat.isValidChar; omega)
    rw [List.flatMap_cons, units, same, if_pos below,
      more (fun unit member => small unit (List.mem_cons_of_mem _ member)) restRead]
    rfl
  | case3 | case4 | case5 => cases read

/-! ## Reading and writing -/

theorem decode_eq_ok_iff (bytes : List UInt8) (text : String) :
    decode bytes = .ok text ↔ ∃ codeUnits chars, toUnits bytes 0 = .ok codeUnits ∧
      ofUnits codeUnits = .ok chars ∧ String.ofList chars = text := by
  constructor
  · intro read
    obtain ⟨codeUnits, split, read⟩ := bind_eq_ok read
    obtain ⟨chars, joined, read⟩ := bind_eq_ok read
    cases read
    exact ⟨codeUnits, chars, split, joined, rfl⟩
  · rintro ⟨codeUnits, chars, split, joined, rfl⟩
    rw [decode, split]
    change (ofUnits codeUnits >>= fun chars => pure (String.ofList chars)) = _
    rw [joined]
    rfl

/-- Writing the text read from forms writes each form's unit in its shortest form. -/
theorem encode_of_ofUnits {forms : List (List UInt8)} {chars : List Char}
    (allForms : ∀ form ∈ forms, Form form) (read : ofUnits (forms.map formUnit) = .ok chars) :
    encode (String.ofList chars) = (forms.map fun form => unitBytes (formUnit form)).flatten := by
  have small : ∀ unit ∈ forms.map formUnit, unit < 0x10000 := by
    intro unit member
    obtain ⟨form, isMember, rfl⟩ := List.mem_map.mp member
    exact (allForms form isMember).unit_lt
  rw [encode, String.toList_ofList, ← List.flatMap_assoc, flatMap_units_of_ofUnits small read,
    List.flatMap_map, List.flatMap_def]

/-- Reading succeeds exactly on the bytes made of forms whose code units pair every
surrogate. -/
theorem decode_ok_iff_forms (bytes : List UInt8) :
    (∃ text, decode bytes = .ok text) ↔ ∃ forms : List (List UInt8),
      (∀ form ∈ forms, Form form) ∧ forms.flatten = bytes ∧ Paired (forms.map formUnit) := by
  constructor
  · rintro ⟨text, read⟩
    obtain ⟨codeUnits, chars, split, joined, -⟩ := (decode_eq_ok_iff bytes text).mp read
    obtain ⟨forms, allForms, flat, rfl⟩ := (toUnits_eq_ok_iff bytes 0 codeUnits).mp split
    exact ⟨forms, allForms, flat, (ofUnits_ok_iff_paired _).mp ⟨chars, joined⟩⟩
  · rintro ⟨forms, allForms, rfl, paired⟩
    obtain ⟨chars, joined⟩ := (ofUnits_ok_iff_paired _).mpr paired
    have split := (toUnits_eq_ok_iff _ 0 _).mpr ⟨forms, allForms, rfl, rfl⟩
    exact ⟨String.ofList chars, (decode_eq_ok_iff _ _).mpr ⟨_, chars, split, joined, rfl⟩⟩

/-- Bytes made of forms whose code units pair are read, and written back unchanged exactly when
no form is overlong but the two byte form of NUL. -/
theorem encode_decode_forms_iff {forms : List (List UInt8)} (allForms : ∀ form ∈ forms, Form form)
    (paired : Paired (forms.map formUnit)) :
    ∃ text, decode forms.flatten = .ok text ∧
      (encode text = forms.flatten ↔ ∀ form ∈ forms, Overlong form → form = [0xc0, 0x80]) := by
  obtain ⟨chars, joined⟩ := (ofUnits_ok_iff_paired _).mpr paired
  have split := (toUnits_eq_ok_iff _ 0 _).mpr ⟨forms, allForms, rfl, rfl⟩
  refine ⟨String.ofList chars, (decode_eq_ok_iff _ _).mpr ⟨_, chars, split, joined, rfl⟩, ?_⟩
  rw [encode_of_ofUnits allForms joined]
  -- the written bytes are forms too, so they equal `forms` form by form or not at all
  have written : ∀ form ∈ forms.map (fun form => unitBytes (formUnit form)), Form form := by
    intro form member
    obtain ⟨original, isMember, rfl⟩ := List.mem_map.mp member
    exact (form_unitBytes (allForms original isMember).unit_lt).1
  constructor
  · intro same form member
    have each := Form.split_unique written allForms same
    rw [← unitBytes_formUnit_eq_iff (allForms form member)]
    exact List.map_eq_map_iff.mp (each.trans (List.map_id forms).symm) form member
  · intro canonical
    rw [List.map_congr_left (g := id) fun form member =>
      (unitBytes_formUnit_eq_iff (allForms form member)).mpr (canonical form member), List.map_id]

/-- **Modified UTF-8.** Reading gives back every text written. Reading succeeds on exactly the
byte strings made of forms whose code units pair every surrogate, and such bytes are written
back unchanged exactly when no form is overlong, the two byte form of NUL apart. -/
theorem decode_reads_forms_encode_writes_shortest :
    (∀ text, decode (encode text) = .ok text) ∧
    (∀ bytes, (∃ text, decode bytes = .ok text) ↔ ∃ forms : List (List UInt8),
      (∀ form ∈ forms, Form form) ∧ forms.flatten = bytes ∧ Paired (forms.map formUnit)) ∧
    (∀ forms : List (List UInt8), (∀ form ∈ forms, Form form) → Paired (forms.map formUnit) →
      ∃ text, decode forms.flatten = .ok text ∧
        (encode text = forms.flatten ↔ ∀ form ∈ forms, Overlong form → form = [0xc0, 0x80])) :=
  ⟨decode_encode, decode_ok_iff_forms, fun _ allForms paired => encode_decode_forms_iff allForms paired⟩

/-- `C0 80` and `E0 80 80` both read as NUL; only the first is written back. -/
example : decode [0xc0, 0x80] = .ok "\x00" ∧ decode [0xe0, 0x80, 0x80] = .ok "\x00" ∧
    encode "\x00" = [0xc0, 0x80] := by
  decide

end ClassKit.ModifiedUtf8
