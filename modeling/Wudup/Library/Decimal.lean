import Mathlib.Data.List.TakeWhile
import Wudup.Library.Unicode

/-! Decimal numbers as text: their values, and the text without leading zeros. -/
namespace Library

theorem decimalValue_of_ascii {c : Char} (h : c.isDigit = true) : decimalValue c = some (c.toNat - 48) := by
  obtain ⟨hlow,hhigh⟩ := ascii_range h
  have hfind : decimalZeros.find? (fun z => z ≤ c.toNat && c.toNat < z + 10) = some 48 := by
    apply List.find?_cons_of_pos
    simp only [Bool.and_eq_true,decide_eq_true_eq]
    omega
  rw [decimalValue,hfind]
  rfl

theorem digitChar_of_ascii {c : Char} (h : c.isDigit = true) : Nat.digitChar (c.toNat - 48) = c := by
  obtain ⟨hlow,hhigh⟩ := ascii_range h
  have hall : ∀ k : Fin 10, Nat.digitChar k = Char.ofNat (k + 48) := by decide
  have hk := hall ⟨c.toNat - 48,by omega⟩
  have hc : c.toNat - 48 + 48 = c.toNat := by omega
  rw [hk,hc,Char.ofNat_toNat]

/-- The value of a text of decimal digits. -/
def digitsValue (text : List Char) : ℕ := Nat.ofDigitChars 10 text 0

@[simp] theorem digitsValue_toDigits (n : ℕ) : digitsValue (Nat.toDigits 10 n) = n := Nat.ofDigitChars_ten_toDigits

/-- A greater number is not written with fewer digits. -/
theorem length_toDigits_mono {m n : ℕ} (h : m ≤ n) : (Nat.toDigits 10 m).length ≤ (Nat.toDigits 10 n).length := by
  have hn := (Nat.length_toDigits_le_iff (by decide) Nat.length_toDigits_pos).mp (le_refl (Nat.toDigits 10 n).length)
  exact (Nat.length_toDigits_le_iff (by decide) Nat.length_toDigits_pos).mpr (lt_of_le_of_lt h hn)

theorem toDigits_injective : Function.Injective (Nat.toDigits 10) := by
  intro m n h
  rw [← digitsValue_toDigits m,h,digitsValue_toDigits]

theorem readDecimal_of_ascii {text : List Char} (hne : text ≠ []) (hd : ∀ c ∈ text, c.isDigit = true)
    (hl : text.length ≤ maxDigits) : readDecimal text = some (digitsValue text) := by
  have hvalues : text.mapM decimalValue = some (text.map fun c => c.toNat - 48) := by
    clear hne hl
    induction text with
    | nil => rfl
    | cons c text ih =>
      rw [List.mapM_cons,decimalValue_of_ascii (hd c (by simp)),ih fun d h => hd d (List.mem_cons_of_mem c h)]
      rfl
  rw [readDecimal,if_neg (by simp [hne,hl]),hvalues,Option.map_some,List.foldl_map]
  rfl

/-- Digits that are read after a positive number go on writing it. -/
theorem toDigits_ofDigitChars {n : ℕ} (hn : 0 < n) {digits : List Char} (hd : ∀ c ∈ digits, c.isDigit = true) :
    0 < Nat.ofDigitChars 10 digits n ∧
      Nat.toDigits 10 (Nat.ofDigitChars 10 digits n) = Nat.toDigits 10 n ++ digits := by
  induction digits generalizing n with
  | nil => simp [hn]
  | cons c digits ih =>
    have hc := hd c (by simp)
    obtain ⟨hlow,hhigh⟩ := ascii_range hc
    have hlast : c.toNat - '0'.toNat < 10 := by
      change c.toNat - 48 < 10
      omega
    obtain ⟨hpos,hdigits⟩ := ih (n := 10 * n + (c.toNat - '0'.toNat)) (by omega)
      fun d hd' => hd d (List.mem_cons_of_mem c hd')
    rw [Nat.ofDigitChars_cons]
    refine ⟨hpos,?_⟩
    rw [hdigits,← Nat.toDigits_append_toDigits (by decide) hn hlast,Nat.toDigits_of_lt_base hlast,List.append_assoc]
    exact congrArg (Nat.toDigits 10 n ++ ·) (congrArg (· :: digits) (digitChar_of_ascii hc))

/-- Without its leading zeros a text is what writes its value. -/
theorem toDigits_of_head {c : Char} {digits : List Char} (hc : c.isDigit = true) (hz : c ≠ '0')
    (hd : ∀ d ∈ digits, d.isDigit = true) :
    0 < digitsValue (c :: digits) ∧ Nat.toDigits 10 (digitsValue (c :: digits)) = c :: digits := by
  obtain ⟨hlow,hhigh⟩ := ascii_range hc
  have hzero : c.toNat ≠ 48 := fun h => hz (Char.ext (UInt32.toNat_inj.mp h))
  have hpos : 0 < c.toNat - 48 := by omega
  have hvalue : digitsValue (c :: digits) = Nat.ofDigitChars 10 digits (c.toNat - 48) := by
    rw [digitsValue,Nat.ofDigitChars_cons,Nat.mul_zero,Nat.zero_add]
    rfl
  have hlast : c.toNat - 48 < 10 := by omega
  rw [hvalue]
  obtain ⟨hpositive,hdigits⟩ := toDigits_ofDigitChars hpos hd
  rw [hdigits,Nat.toDigits_of_lt_base hlast,digitChar_of_ascii hc]
  exact ⟨hpositive,rfl⟩

theorem digitsValue_dropZeros (text : List Char) : digitsValue (text.dropWhile (· = '0')) = digitsValue text := by
  induction text with
  | nil => rfl
  | cons c text ih =>
    by_cases hc : c = '0'
    · subst hc
      rw [List.dropWhile_cons_of_pos (by decide),ih]
      rfl
    · rw [List.dropWhile_cons_of_neg (by simpa using hc)]

/-- Two numbers are equal when their texts differ in leading zeros only. -/
theorem digitsValue_eq_iff {text text' : List Char} (hd : ∀ c ∈ text, c.isDigit = true)
    (hd' : ∀ c ∈ text', c.isDigit = true) : digitsValue text = digitsValue text' ↔
      text.dropWhile (· = '0') = text'.dropWhile (· = '0') := by
  have hwritten : ∀ xs : List Char, (∀ c ∈ xs, c.isDigit = true) →
      xs.dropWhile (· = '0') = if digitsValue xs = 0 then [] else Nat.toDigits 10 (digitsValue xs) := by
    intro xs hxs
    have hvalue := digitsValue_dropZeros xs
    have hrest : ∀ c ∈ xs.dropWhile (· = '0'), c.isDigit = true :=
      fun c hc => hxs c ((List.dropWhile_sublist _).subset hc)
    have hhead := List.head?_dropWhile_not (· = '0') xs
    cases h : xs.dropWhile (· = '0') with
    | nil =>
      rw [h] at hvalue
      exact (if_pos hvalue.symm).symm
    | cons c digits =>
      rw [h] at hvalue hrest hhead
      obtain ⟨hpos,hdigits⟩ := toDigits_of_head (hrest c (by simp)) (by simpa using hhead)
        fun d hd => hrest d (List.mem_cons_of_mem c hd)
      rw [← hvalue,if_neg (by omega),hdigits]
  constructor
  · intro h
    rw [hwritten text hd,hwritten text' hd',h]
  · intro h
    rw [← digitsValue_dropZeros text,h,digitsValue_dropZeros]

end Library
