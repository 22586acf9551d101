import GraphQLEngine.Engine.Subscribe
import GraphQLEngine.Proofs.Brokers.Maps
import GraphQLEngine.Proofs.Schemas.Build
import Mathlib

/-!
# Settings as text

Settings that are written into an environment, numbers as numerals and a mode as its label, with any
blanks around them, are read back as they were.  The nearest layer that has a variable decides, also
when it has a blank there; a text that is no numeral of a size, or no label, is refused.

    Text.Pads value text         a value is a text with blanks around it
    Text.Numeral text n          a text is a decimal numeral of a number
    Environment.Tells e key r a   what is read from the nearest value of a variable
    Settings.ReadFrom c e        settings are what the variables say, and the defaults elsewhere
-/

namespace GraphQLEngine

theorem bind_ok_iff {ε α β : Type} {x : Except ε α} {f : α → Except ε β} {b : β} :
    x >>= f = .ok b ↔ ∃ a, x = .ok a ∧ f a = .ok b :=
  ⟨bind_ok, fun ⟨_, first, rest⟩ => (bind_of_ok first).trans rest⟩

theorem pure_ok_iff {ε α : Type} {a b : α} : (pure a : Except ε α) = .ok b ↔ b = a :=
  ⟨fun h => (Except.ok.inj h).symm, fun h => congrArg Except.ok h.symm⟩

namespace Text

/-! ## Blanks -/

/-- A value is a text with blanks around it. -/
def Pads (value text : String) : Prop :=
  ∃ left right : List Char, (∀ c ∈ left, isBlank c = true) ∧ (∀ c ∈ right, isBlank c = true) ∧
    value.toList = left ++ text.toList ++ right

/-- A text neither begins nor ends with a blank. -/
structure Tight (cs : List Char) : Prop where
  head : ∀ c ∈ cs.head?, isBlank c = false
  last : ∀ c ∈ cs.getLast?, isBlank c = false

theorem tight_of_all {cs : List Char} (h : ∀ c ∈ cs, isBlank c = false) : Tight cs :=
  ⟨fun c mem => h c (List.mem_of_head? mem), fun c mem => h c (List.mem_of_getLast? mem)⟩

theorem dropWhile_blanks {blanks cs : List Char} (blank : ∀ c ∈ blanks, isBlank c = true)
    (head : ∀ c ∈ cs.head?, isBlank c = false) : (blanks ++ cs).dropWhile isBlank = cs := by
  rw [List.dropWhile_append_of_pos blank]
  cases cs with
  | nil => rfl
  | cons c cs => rw [List.dropWhile_cons_of_neg (by simp [head c rfl])]

theorem trimChars_pads {left cs right : List Char} (tight : Tight cs)
    (blankLeft : ∀ c ∈ left, isBlank c = true) (blankRight : ∀ c ∈ right, isBlank c = true) :
    trimChars (left ++ cs ++ right) = cs := by
  have back : (cs ++ right).reverse.dropWhile isBlank = cs.reverse := by
    rw [List.reverse_append]
    refine dropWhile_blanks (fun c mem => blankRight c (List.mem_reverse.mp mem)) ?_
    rw [List.head?_reverse]
    exact tight.last
  unfold trimChars
  cases cs with
  | nil =>
    have blank : (left ++ [] ++ right).dropWhile isBlank = [] :=
      List.dropWhile_eq_nil_iff.mpr fun c mem => by
        rw [List.append_nil] at mem
        exact (List.mem_append.mp mem).elim (blankLeft c) (blankRight c)
    rw [blank]
    rfl
  | cons c cs =>
    rw [List.append_assoc, dropWhile_blanks blankLeft (by simpa using tight.head), back,
      List.reverse_reverse]

theorem trim_of_pads {value text : String} (pads : Pads value text) (tight : Tight text.toList) :
    trim value = text := by
  obtain ⟨left, right, blankLeft, blankRight, eq⟩ := pads
  rw [trim, eq, trimChars_pads tight blankLeft blankRight, String.ofList_toList]

/-- Trimming takes nothing but blanks away. -/
theorem pads_trim (value : String) : Pads value (trim value) := by
  refine ⟨value.toList.takeWhile isBlank,
    ((value.toList.dropWhile isBlank).reverse.takeWhile isBlank).reverse,
    fun c mem => List.mem_takeWhile_imp mem,
    fun c mem => List.mem_takeWhile_imp (List.mem_reverse.mp mem), ?_⟩
  rw [trim, String.toList_ofList, trimChars, List.append_assoc, ← List.reverse_append,
    List.takeWhile_append_dropWhile, List.reverse_reverse, List.takeWhile_append_dropWhile]

theorem pads_empty_iff {value : String} : Pads value "" ↔ trim value = "" := by
  have tight : Tight "".toList := tight_of_all fun c mem => absurd mem List.not_mem_nil
  exact ⟨fun pads => trim_of_pads pads tight, fun eq => eq ▸ pads_trim value⟩

/-! ## Numerals -/

/-- A decimal numeral of a number: digits, perhaps after a plus sign. -/
def Numeral (text : String) (n : Nat) : Prop :=
  ∃ ds, (text.toList = ds ∨ text.toList = '+' :: ds) ∧ ds ≠ [] ∧ (∀ c ∈ ds, c.isDigit = true) ∧
    Nat.ofDigitChars 10 ds 0 = n

theorem numeral_toString (n : Nat) : Numeral (toString n) n := by
  refine ⟨Nat.toDigits 10 n, .inl ?_, Nat.toDigits_ne_nil,
    fun c => Nat.isDigit_of_mem_toDigits (by decide) (by decide), Nat.ofDigitChars_ten_toDigits⟩
  rw [Nat.toString_eq_ofList_toDigits, String.toList_ofList]

theorem digit?_eq (c : Char) :
    digit? c = if c.isDigit then some (c.toNat - '0'.toNat) else none := by
  simp [digit?, Char.isDigit, Char.le_def]

theorem toNat_of_isDigit {c : Char} (h : c.isDigit = true) : 48 ≤ c.toNat ∧ c.toNat ≤ 57 := by
  simp only [Char.isDigit, Bool.and_eq_true, decide_eq_true_eq, ge_iff_le,
    UInt32.le_iff_toNat_le] at h
  exact h

theorem isBlank_of_isDigit {c : Char} (h : c.isDigit = true) : isBlank c = false := by
  have := toNat_of_isDigit h
  simp only [isBlank, Bool.or_eq_false_iff, Bool.and_eq_false_iff, decide_eq_false_iff_not,
    beq_eq_false_iff_ne]
  omega

theorem le_ofDigitChars (cs : List Char) (value : Nat) : value ≤ Nat.ofDigitChars 10 cs value := by
  rw [Nat.ofDigitChars_eq_ofDigitChars_zero]
  exact Nat.le_add_right_of_le (Nat.le_mul_of_pos_left value (by positivity))

variable {limit value n : Nat} {overflow : NumeralError} {cs : List Char}

/-- Digits are read as long as their value is within the limit. -/
theorem readDigits_of_digits (digits : ∀ c ∈ cs, c.isDigit = true) (le : value ≤ limit) :
    readDigits limit overflow value cs =
      if Nat.ofDigitChars 10 cs value ≤ limit then .ok (Nat.ofDigitChars 10 cs value)
      else .error overflow := by
  induction cs generalizing value with
  | nil => simp [readDigits, le]
  | cons c cs ih =>
    rw [readDigits, digit?_eq, if_pos (digits c List.mem_cons_self), Nat.ofDigitChars_cons]
    simp only [Nat.mul_comm value 10]
    split
    · next le => exact ih (fun c mem => digits c (List.mem_cons_of_mem _ mem)) le
    · next gt =>
      -- Further digits cannot bring the value back below the limit.
      have := le_ofDigitChars cs (10 * value + (c.toNat - '0'.toNat))
      rw [if_neg (by omega)]

theorem digits_of_readDigits (h : readDigits limit overflow value cs = .ok n) :
    ∀ c ∈ cs, c.isDigit = true := by
  induction cs generalizing value with
  | nil => exact fun _ mem => absurd mem List.not_mem_nil
  | cons c cs ih =>
    rw [readDigits, digit?_eq] at h
    by_cases isDigit : c.isDigit = true
    · rw [if_pos isDigit] at h
      dsimp only at h
      split at h
      · exact List.forall_mem_cons.mpr ⟨isDigit, ih h⟩
      · cases h
    · rw [if_neg isDigit] at h
      cases h

theorem readUnsigned_of_ne_plus {c : Char} (h : c ≠ '+') :
    readUnsigned limit (c :: cs) = readDigits limit .tooLarge 0 (c :: cs) := by
  rw [readUnsigned] <;> simp [h]

/-- A numeral is read if its number is within the limit. -/
theorem readUnsigned_of_numeral {text : String} (h : Numeral text n) :
    readUnsigned limit text.toList = if n ≤ limit then .ok n else .error .tooLarge := by
  obtain ⟨ds, signed, some, digits, rfl⟩ := h
  have read : readDigits limit .tooLarge 0 ds = _ := readDigits_of_digits digits (Nat.zero_le limit)
  obtain ⟨c, cs, rfl⟩ := List.exists_cons_of_ne_nil some
  rcases signed with eq | eq <;> rw [eq]
  · have unsigned : c ≠ '+' := by
      rintro rfl
      exact absurd (digits '+' List.mem_cons_self) (by decide)
    rw [readUnsigned_of_ne_plus unsigned, read]
  · exact read

/-- Nothing but a numeral is read. -/
theorem numeral_of_readUnsigned {text : String} (h : readUnsigned limit text.toList = .ok n) :
    Numeral text n ∧ n ≤ limit := by
  have of_digits : ∀ {ds : List Char}, (text.toList = ds ∨ text.toList = '+' :: ds) → ds ≠ [] →
      readDigits limit .tooLarge 0 ds = .ok n → Numeral text n ∧ n ≤ limit := by
    intro ds signed some read
    have digits := digits_of_readDigits read
    rw [readDigits_of_digits digits (Nat.zero_le limit)] at read
    split at read
    · next le =>
      cases read
      exact ⟨⟨ds, signed, some, digits, rfl⟩, le⟩
    · cases read
  cases eq : text.toList with
  | nil =>
    rw [eq] at h
    cases h
  | cons c cs =>
    rw [eq] at h
    by_cases plus : c = '+'
    · subst plus
      cases cs with
      | nil => cases h
      | cons d ds => exact of_digits (.inr eq) (List.cons_ne_nil d ds) h
    · rw [readUnsigned_of_ne_plus plus] at h
      exact of_digits (.inl eq) (List.cons_ne_nil c cs) h

theorem Numeral.tight {text : String} (h : Numeral text n) : Tight text.toList := by
  obtain ⟨ds, signed, -, digits, -⟩ := h
  refine tight_of_all fun c mem => ?_
  rcases signed with eq | eq <;> rw [eq] at mem
  · exact isBlank_of_isDigit (digits c mem)
  · rcases List.mem_cons.mp mem with rfl | mem
    · decide
    · exact isBlank_of_isDigit (digits c mem)

theorem Numeral.unique {text : String} {m : Nat} (h : Numeral text n) (h' : Numeral text m) :
    n = m := by
  have read : readUnsigned (max n m) text.toList = _ := readUnsigned_of_numeral h
  rw [readUnsigned_of_numeral h', if_pos (Nat.le_max_right n m),
    if_pos (Nat.le_max_left n m)] at read
  exact (Except.ok.inj read).symm

theorem Numeral.ne_empty {text : String} (h : Numeral text n) : text ≠ "" := by
  rintro rfl
  obtain ⟨ds, signed, some, -⟩ := h
  rcases signed with eq | eq
  · exact some eq.symm
  · cases eq

/-- A numeral of a number that is not too large for a size. -/
def Size (text : String) (n : Nat) : Prop := Numeral text n ∧ n ≤ maxSize

theorem readSize_ok_iff {text : String} : Environment.readSize text = .ok n ↔ Size text n := by
  refine ⟨fun h => ?_, fun ⟨numeral, le⟩ => ?_⟩
  · cases read : readUnsigned maxSize text.toList with
    | error fault =>
      simp [Environment.readSize, Environment.readUnsigned, read, Except.mapError] at h
    | ok m =>
      obtain rfl : m = n := by
        simpa [Environment.readSize, Environment.readUnsigned, read, Except.mapError] using h
      exact numeral_of_readUnsigned read
  · simp [Environment.readSize, Environment.readUnsigned, readUnsigned_of_numeral numeral, le,
      Except.mapError]

end Text

/-- A text is the label of a mode. -/
def OverflowMode.Labels (text : String) (m : OverflowMode) : Prop := text = m.label

theorem OverflowMode.Labels.tight {text : String} {m : OverflowMode} (h : Labels text m) :
    Text.Tight text.toList ∧ text ≠ "" := by
  rw [h]
  exact ⟨Text.tight_of_all (by cases m <;> simp [label, Text.isBlank]),
    by cases m <;> simp [label]⟩

theorem OverflowMode.ofLabel?_eq_some_iff {text : String} {m : OverflowMode} :
    ofLabel? text = some m ↔ Labels text m := by
  refine ⟨fun h => ?_, fun labels => labels ▸ ofLabel_label m⟩
  unfold ofLabel? at h
  split at h
  all_goals first
    | cases h; rfl
    | cases h

namespace Environment

/-! ## Variables -/

/-- The layers of an environment, the nearest first. -/
def layers : Environment → List (OrderedMap String)
  | .base values => [values]
  | .layered values fallback => values :: fallback.layers

/-- The value of a variable in the nearest layer that has one. -/
def nearest? (e : Environment) (key : String) : Option String := e.layers.findSome? (·.lookup key)

theorem get?_eq (e : Environment) (key : String) : e.get? key = e.nearest? key := by
  induction e with
  | base values => cases found : values.lookup key <;> simp [get?, nearest?, layers, found]
  | layered values fallback ih =>
    cases found : values.lookup key <;> simp [get?, nearest?, layers, found]
    exact ih

/-- The nearest value of a variable is a text with blanks around it. -/
def Writes (e : Environment) (key text : String) : Prop :=
  ∃ value, e.nearest? key = some value ∧ Text.Pads value text

/-- What is read from the nearest value of a variable: nothing if there is none or it is blank. -/
inductive Tells (e : Environment) (key : String) {α : Type} (reads : String → α → Prop) :
    Option α → Prop
  | unset : e.nearest? key = none → Tells e key reads none
  | blank : e.Writes key "" → Tells e key reads none
  | text {text : String} {a : α} : e.Writes key text → reads text a → Tells e key reads (some a)

/-- The nearest value of a variable without blanks around it, if there is more to it. -/
def trimmed? (e : Environment) (key : String) : Option String :=
  ((e.nearest? key).map Text.trim).filter (· ≠ "")

section

variable {e : Environment} {key : String} {α : Type} {reads : String → α → Prop} {said : Option α}

theorem trimmed?_eq_some_iff {text : String} :
    e.trimmed? key = some text ↔
      ∃ value, e.nearest? key = some value ∧ Text.trim value = text ∧ text ≠ "" := by
  simp only [trimmed?, Option.filter_eq_some_iff, Option.map_eq_some_iff, decide_eq_true_eq,
    ← exists_and_right, and_assoc]

theorem trimmed?_eq_none_iff :
    e.trimmed? key = none ↔ ∀ value, e.nearest? key = some value → Text.trim value = "" := by
  simp [trimmed?, Option.filter_eq_none_iff]

theorem Writes.of_trim {value text : String} (found : e.nearest? key = some value)
    (trimmed : Text.trim value = text) : e.Writes key text :=
  ⟨value, found, trimmed ▸ Text.pads_trim value⟩

theorem Writes.trimmed? {text : String} (h : e.Writes key text) (tight : Text.Tight text.toList)
    (nonempty : text ≠ "") : e.trimmed? key = some text := by
  obtain ⟨value, found, pads⟩ := h
  exact trimmed?_eq_some_iff.mpr ⟨value, found, Text.trim_of_pads pads tight, nonempty⟩

/-- What is read from a variable depends on what there is besides blanks. -/
theorem tells_iff (tight : ∀ {text a}, reads text a → Text.Tight text.toList ∧ text ≠ "") :
    e.Tells key reads said ↔
      e.trimmed? key = none ∧ said = none ∨
      ∃ text a, e.trimmed? key = some text ∧ reads text a ∧ said = some a := by
  constructor
  · intro tells
    cases tells with
    | unset unset => exact .inl ⟨by rw [Environment.trimmed?, unset]; rfl, rfl⟩
    | blank writes =>
      obtain ⟨value, found, blank⟩ := writes
      refine .inl ⟨trimmed?_eq_none_iff.mpr fun value' found' => ?_, rfl⟩
      rw [found, Option.some.injEq] at found'
      exact found' ▸ Text.pads_empty_iff.mp blank
    | text writes read =>
      obtain ⟨tight, nonempty⟩ := tight read
      exact .inr ⟨_, _, writes.trimmed? tight nonempty, read, rfl⟩
  · rintro (⟨blank, rfl⟩ | ⟨text, a, trimmed, read, rfl⟩)
    · cases found : e.nearest? key with
      | none => exact .unset found
      | some value =>
        exact .blank (.of_trim found (trimmed?_eq_none_iff.mp blank value found))
    · obtain ⟨value, found, rfl, -⟩ := trimmed?_eq_some_iff.mp trimmed
      exact .text (.of_trim found rfl) read

theorem parsed_of_none {read : String → Except ParseFault α} (h : e.trimmed? key = none) :
    e.parsed read key = .ok none := by
  rw [parsed, get?_eq]
  cases found : e.nearest? key with
  | none => rfl
  | some value => simp [trimmed?_eq_none_iff.mp h value found]

theorem parsed_of_some {read : String → Except ParseFault α} {text : String}
    (h : e.trimmed? key = some text) :
    ∃ value, e.parsed read key =
      ((read text).mapError (EnvironmentError.invalidValue key value)).map some := by
  obtain ⟨value, found, rfl, nonempty⟩ := trimmed?_eq_some_iff.mp h
  refine ⟨value, ?_⟩
  rw [parsed, get?_eq, found]
  cases result : read (Text.trim value) <;> simp [nonempty, result, Except.map, Except.mapError]

theorem parsed_ok_iff {read : String → Except ParseFault α} :
    e.parsed read key = .ok said ↔
      e.trimmed? key = none ∧ said = none ∨
      ∃ text a, e.trimmed? key = some text ∧ read text = .ok a ∧ said = some a := by
  cases trimmed : e.trimmed? key with
  | none =>
    rw [parsed_of_none trimmed]
    simp [@eq_comm _ none said]
  | some text =>
    obtain ⟨value, eq⟩ : ∃ value, e.parsed read key = _ := parsed_of_some trimmed
    rw [eq]
    cases result : read text <;> simp [result, Except.map, Except.mapError, @eq_comm _ said]

end

/-- A variable with a numeral tells its number, if it fits. -/
theorem tells_numeral {e : Environment} {key text : String} {n : Nat} (writes : e.Writes key text)
    (numeral : Text.Numeral text n) {said : Option Nat} (tells : e.Tells key Text.Size said) :
    said = some n ∧ n ≤ Text.maxSize := by
  have trimmed := writes.trimmed? numeral.tight numeral.ne_empty
  rw [tells_iff fun size => ⟨size.1.tight, size.1.ne_empty⟩, trimmed] at tells
  obtain ⟨unset, -⟩ | ⟨text', m, same, size, rfl⟩ := tells
  · cases unset
  · cases same
    obtain rfl := numeral.unique size.1
    exact ⟨rfl, size.2⟩

theorem parsed_size_ok_iff {e : Environment} {key : String} {said : Option Nat} :
    e.parsed readSize key = .ok said ↔ e.Tells key Text.Size said := by
  rw [tells_iff fun size => ⟨size.1.tight, size.1.ne_empty⟩, parsed_ok_iff]
  simp only [Text.readSize_ok_iff]

end Environment

/-! ## Settings -/

namespace Settings

variable {c : Settings} {e : Environment}

/-- Settings that can be: sizes fit, and those that bound something are positive. -/
structure Valid (c : Settings) : Prop where
  depth : c.maxQueryDepth ≤ Text.maxSize
  batch : ∀ n ∈ c.maxBatchSize, 0 < n ∧ n ≤ Text.maxSize
  capacity : 0 < c.delivery.capacity ∧ c.delivery.capacity ≤ Text.maxSize

/-- Settings are what the variables of an environment tell, and the defaults where they do not. -/
structure ReadFrom (c : Settings) (e : Environment) : Prop where
  depth : ∃ said, e.Tells queryDepthKey Text.Size said ∧
    c.maxQueryDepth = said.getD defaultQueryDepth
  batch : ∃ said, e.Tells batchSizeKey Text.Size said ∧ c.maxBatchSize = said.filter (0 < ·)
  capacity : ∃ said, e.Tells capacityKey Text.Size said ∧ said ≠ some 0 ∧
    c.delivery.capacity = said.getD defaultCapacity
  mode : ∃ said, e.Tells overflowKey OverflowMode.Labels said ∧ c.delivery.mode = said.getD .buffer

theorem readQueryDepth_ok_iff {depth : Nat} : readQueryDepth e = .ok depth ↔
    ∃ said, e.Tells queryDepthKey Text.Size said ∧ depth = said.getD defaultQueryDepth := by
  simp only [readQueryDepth, bind_ok_iff, pure_ok_iff, Environment.parsed_size_ok_iff]

theorem readBatchSize_ok_iff {size : Option Nat} : readBatchSize e = .ok size ↔
    ∃ said, e.Tells batchSizeKey Text.Size said ∧ size = said.filter (0 < ·) := by
  simp only [readBatchSize, bind_ok_iff, pure_ok_iff, Environment.parsed_size_ok_iff]

theorem readCapacity_ok_iff {capacity : Nat} : readCapacity e = .ok capacity ↔
    ∃ said, e.Tells capacityKey Text.Size said ∧ said ≠ some 0 ∧
      capacity = said.getD defaultCapacity := by
  simp only [readCapacity, bind_ok_iff, Environment.parsed_size_ok_iff]
  refine exists_congr fun said => and_congr_right fun _ => ?_
  split <;> simp_all [pure, Except.pure, throw, throwThe, MonadExceptOf.throw, eq_comm]

theorem readOverflow_ok_iff {mode : OverflowMode} : readOverflow e = .ok mode ↔
    ∃ said, e.Tells overflowKey OverflowMode.Labels said ∧ mode = said.getD .buffer := by
  simp only [Environment.tells_iff OverflowMode.Labels.tight, Environment.trimmed?, readOverflow,
    Environment.get?_eq]
  generalize (e.nearest? overflowKey).map Text.trim = text?
  split
  · simp [@eq_comm _ _ mode]
  · simp [@eq_comm _ _ mode]
  · next text nonempty =>
    have nonempty : text ≠ "" := nonempty
    cases labelled : OverflowMode.ofLabel? text with
    | none =>
      have unlabelled : ∀ m, ¬OverflowMode.Labels text m := fun m labels => by
        rw [OverflowMode.ofLabel?_eq_some_iff.mpr labels] at labelled
        cases labelled
      simp [nonempty, unlabelled]
    | some m =>
      have label : ∀ m', OverflowMode.Labels text m' ↔ m' = m := fun m' => by
        rw [← OverflowMode.ofLabel?_eq_some_iff, labelled, Option.some.injEq, eq_comm]
      simp [nonempty, label, @eq_comm _ m]

/-- The settings of an environment are what its variables tell. -/
theorem ofEnvironment_ok_iff : ofEnvironment e = .ok c ↔ c.ReadFrom e := by
  simp only [ofEnvironment, bind_ok_iff, pure_ok_iff, readCapacity_ok_iff, readOverflow_ok_iff,
    readQueryDepth_ok_iff, readBatchSize_ok_iff]
  constructor
  · rintro ⟨capacity, capacityRead, mode, modeRead, depth, depthRead, batch, batchRead, rfl⟩
    exact ⟨depthRead, batchRead, capacityRead, modeRead⟩
  · rintro ⟨depth, batch, capacity, mode⟩
    exact ⟨_, capacity, _, mode, _, depth, _, batch, rfl⟩

/-! ## Writing -/

/-- The variables with a number. -/
def sizeKeys : List String := [queryDepthKey, batchSizeKey, capacityKey]

/-- An environment has settings written in it; where batches are not split, the variable is unset or
blank or zero. -/
structure WrittenTo (c : Settings) (e : Environment) : Prop where
  depth : e.Writes queryDepthKey (toString c.maxQueryDepth)
  batch : ∀ n, c.maxBatchSize = some n → e.Writes batchSizeKey (toString n)
  noBatch : c.maxBatchSize = none →
    e.nearest? batchSizeKey = none ∨ e.Writes batchSizeKey "" ∨ e.Writes batchSizeKey "0"
  capacity : e.Writes capacityKey (toString c.delivery.capacity)
  mode : e.Writes overflowKey c.delivery.mode.label

theorem tells_of_writes {key : String} {n : Nat} (writes : e.Writes key (toString n))
    (le : n ≤ Text.maxSize) : e.Tells key Text.Size (some n) :=
  .text writes ⟨Text.numeral_toString n, le⟩

/-- What was written is read. -/
theorem WrittenTo.readFrom (h : c.WrittenTo e) (valid : c.Valid) : c.ReadFrom e where
  depth := ⟨_, tells_of_writes h.depth valid.depth, rfl⟩
  batch := by
    cases split : c.maxBatchSize with
    | some n =>
      obtain ⟨pos, le⟩ := valid.batch n split
      refine ⟨some n, tells_of_writes (h.batch n split) le, ?_⟩
      rw [Option.filter_some, if_pos (decide_eq_true pos)]
    | none =>
      rcases h.noBatch split with unset | blank | zero
      · exact ⟨none, .unset unset, rfl⟩
      · exact ⟨none, .blank blank, rfl⟩
      · exact ⟨some 0, tells_of_writes zero (Nat.zero_le _), rfl⟩
  capacity := by
    obtain ⟨pos, le⟩ := valid.capacity
    have nonzero : some c.delivery.capacity ≠ some 0 :=
      fun eq => Nat.ne_of_gt pos (Option.some.inj eq)
    exact ⟨_, tells_of_writes h.capacity le, nonzero, rfl⟩
  mode := ⟨_, .text h.mode rfl, rfl⟩

theorem le_of_tells {key : String} {n : Nat} (h : e.Tells key Text.Size (some n)) :
    n ≤ Text.maxSize := by
  cases h with
  | text _ size => exact size.2

/-- What is read can be. -/
theorem ReadFrom.valid (h : c.ReadFrom e) : c.Valid where
  depth := by
    obtain ⟨said, tells, eq⟩ := h.depth
    rw [eq]
    cases said with
    | none => decide
    | some n => exact le_of_tells tells
  batch n mem := by
    obtain ⟨said, tells, eq⟩ := h.batch
    rw [eq, Option.mem_def, Option.filter_eq_some_iff] at mem
    obtain ⟨rfl, pos⟩ := mem
    exact ⟨by simpa using pos, le_of_tells tells⟩
  capacity := by
    obtain ⟨said, tells, nonzero, eq⟩ := h.capacity
    rw [eq]
    cases said with
    | none => decide
    | some n =>
      exact ⟨Nat.pos_of_ne_zero fun zero => nonzero (congrArg some zero), le_of_tells tells⟩

theorem ReadFrom.tells (h : c.ReadFrom e) {key : String} (mem : key ∈ sizeKeys) :
    ∃ said, e.Tells key Text.Size said := by
  simp only [sizeKeys, List.mem_cons, List.not_mem_nil, or_false] at mem
  rcases mem with rfl | rfl | rfl
  · exact ⟨_, h.depth.choose_spec.1⟩
  · exact ⟨_, h.batch.choose_spec.1⟩
  · exact ⟨_, h.capacity.choose_spec.1⟩

theorem error_of_not_readFrom (h : ∀ c : Settings, ¬c.ReadFrom e) :
    ∃ fault, ofEnvironment e = .error fault := by
  cases result : ofEnvironment e with
  | error fault => exact ⟨fault, rfl⟩
  | ok c => exact absurd (ofEnvironment_ok_iff.mp result) (h c)

end Settings

variable {σ : Type}

theorem Hub.subscribe_capacity {h : Hub} {node : Nat} {topic : String} {filter : EventFilter}
    {policy : DeliveryPolicy} (pos : 0 < policy.capacity) :
    h.subscribe node topic filter policy ≠ .error .invalidCapacity := by
  unfold Hub.subscribe
  split
  · next fault refused =>
    intro h
    cases h
    rw [InProcessBroker.subscribe_error_iff, InProcessBroker.refusal?] at refused
    split at refused
    · cases refused
    · rw [if_neg (by omega)] at refused
      split at refused <;> cases refused
  · intro h
    cases h

/-- Where a resolver chooses no policy, the broker does not refuse the positive capacity of the
settings. -/
theorem Engine.register_capacity {engine : Engine σ}
    (pos : 0 < engine.settings.delivery.capacity) {plan : SubscriptionPlan σ}
    (byDefault : plan.resolver.policy = none) (operation : Nat) (w : World σ) :
    (engine.register plan operation w).1 ≠ .error (.subscription .invalidCapacity) := by
  unfold Engine.register
  simp only [byDefault, Option.getD_none]
  split
  · intro h
    cases h
  · split
    · next fault refused =>
      intro h
      cases h
      exact Hub.subscribe_capacity pos refused
    · intro h
      cases h

theorem Engine.pollSetup_capacity {engine : Engine σ}
    (pos : 0 < engine.settings.delivery.capacity) {plan : SubscriptionPlan σ}
    (byDefault : plan.resolver.policy = none) (operation : Nat) (deadline : Option Nat)
    (w : World σ) :
    (engine.pollSetup plan operation deadline w).1 ≠ .failed (.subscription .invalidCapacity) := by
  unfold Engine.pollSetup
  split
  · next reason _ =>
    cases reason <;> exact fun h => by cases h
  · dsimp only
    split
    · have registers := Engine.register_capacity pos byDefault operation w
      split
      · next fault w' eq =>
        intro h
        cases h
        rw [eq] at registers
        exact registers rfl
      · intro h
        cases h
    · intro h
      cases h

/-- Settings make the way through an environment and back.  Those that are written into the nearest
layers that have the variables, as numerals and a label with blanks around them, are read as they
were; what is read is always what the variables tell, or the defaults, so that what bounds something
is positive and no subscription that leaves its policy to the settings is refused for its capacity;
and reading fails for a number that does not fit and for any other text of a number that is neither
blank nor a numeral, for a capacity of zero, and for an unknown mode. -/
theorem settings_roundtrip :
    (∀ {c : Settings} {e : Environment}, c.Valid → c.WrittenTo e →
      Settings.ofEnvironment e = .ok c) ∧
    (∀ {c : Settings} {e : Environment}, Settings.ofEnvironment e = .ok c → c.ReadFrom e ∧ c.Valid ∧
      ∀ {σ : Type} {engine : Engine σ} {plan : SubscriptionPlan σ}, engine.settings = c →
        plan.resolver.policy = none → ∀ operation deadline w,
          (engine.pollSetup plan operation deadline w).1 ≠
            .failed (.subscription .invalidCapacity)) ∧
    ∀ {e : Environment},
      (∀ {key text n}, key ∈ Settings.sizeKeys → e.Writes key text → Text.Numeral text n →
        Text.maxSize < n → ∃ fault, Settings.ofEnvironment e = .error fault) ∧
      (∀ {key}, key ∈ Settings.sizeKeys → e.nearest? key ≠ none → ¬e.Writes key "" →
        (∀ {text n}, e.Writes key text → ¬Text.Size text n) →
          ∃ fault, Settings.ofEnvironment e = .error fault) ∧
      (∀ {text}, e.Writes Settings.capacityKey text → Text.Numeral text 0 →
        ∃ fault, Settings.ofEnvironment e = .error fault) ∧
      (e.nearest? Settings.overflowKey ≠ none → ¬e.Writes Settings.overflowKey "" →
        (∀ m : OverflowMode, ¬e.Writes Settings.overflowKey m.label) →
          ∃ fault, Settings.ofEnvironment e = .error fault) := by
  refine ⟨fun valid written => Settings.ofEnvironment_ok_iff.mpr (written.readFrom valid),
    fun read => ?_, fun {e} => ⟨fun mem writes numeral large => ?_,
      fun mem set nonblank unfit => ?_, fun writes zero => ?_, fun set nonblank unknown => ?_⟩⟩
  · have readFrom := Settings.ofEnvironment_ok_iff.mp read
    refine ⟨readFrom, readFrom.valid, ?_⟩
    rintro σ engine plan rfl byDefault operation deadline w
    exact Engine.pollSetup_capacity readFrom.valid.capacity.1 byDefault operation deadline w
  · refine Settings.error_of_not_readFrom fun c h => ?_
    obtain ⟨said, tells⟩ := h.tells mem
    obtain ⟨-, le⟩ := Environment.tells_numeral writes numeral tells
    omega
  · refine Settings.error_of_not_readFrom fun c h => ?_
    obtain ⟨said, tells⟩ := h.tells mem
    cases tells with
    | unset unset => exact set unset
    | blank writes => exact nonblank writes
    | text writes size => exact unfit writes size
  · refine Settings.error_of_not_readFrom fun c h => ?_
    obtain ⟨said, tells, nonzero, -⟩ := h.capacity
    exact nonzero (Environment.tells_numeral writes zero tells).1
  · refine Settings.error_of_not_readFrom fun c h => ?_
    obtain ⟨said, tells, -⟩ := h.mode
    cases tells with
    | unset unset => exact set unset
    | blank writes => exact nonblank writes
    | text writes labels => exact unknown _ (labels ▸ writes)

/-! ## A layer over another -/

namespace Layers

/-- The blank nearer size hides the other one. -/
def environment : Environment :=
  .layered [("EXO_MAX_QUERY_DEPTH", " 8\t"), ("EXO_LOADER_MAX_BATCH_SIZE", "\n")]
    (.base [("EXO_LOADER_MAX_BATCH_SIZE", "100"), ("EXO_SUBSCRIPTION_BUFFER_SIZE", "16"),
      ("EXO_SUBSCRIPTION_OVERFLOW", " drop-oldest")])

def settings : Settings := ⟨8, none, ⟨.dropOldest, 16⟩⟩

theorem valid : settings.Valid :=
  ⟨by decide, fun _ split => absurd split (by simp [settings]), by decide⟩

theorem written : settings.WrittenTo environment where
  depth := .of_trim rfl (by cbv)
  batch _ split := by cases split
  noBatch _ := .inr (.inl (.of_trim rfl (by cbv)))
  capacity := .of_trim rfl (by cbv)
  mode := .of_trim rfl (by cbv)

/-- The settings are read; a capacity that does not fit is not. -/
theorem settings_roundtrip_layers :
    Settings.ofEnvironment environment = .ok settings ∧
    ∃ fault, Settings.ofEnvironment
      (environment.set Settings.capacityKey "18446744073709551616") = .error fault := by
  obtain ⟨roundtrip, -, refused⟩ := settings_roundtrip
  have size : Settings.capacityKey ∈ Settings.sizeKeys := by simp [Settings.sizeKeys]
  have large := Text.numeral_toString 18446744073709551616
  exact ⟨roundtrip valid written,
    refused.1 size (.of_trim rfl (by cbv)) large (by decide)⟩

end Layers

end GraphQLEngine
