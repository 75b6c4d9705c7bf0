/- Module: T113Boot/Shell/PrintedNumbers
   layer: results
   digest: Which integers fit into the buffer, and that the shell reads back what it prints. -/

import T113Boot.Shell.Numbers
import T113Boot.Shell.Printing

set_option autoImplicit false
set_option relaxedAutoImplicit false

namespace T113Boot.Shell.PrintedNumbers

open T113Boot.Storage.Table (CStr)
open T113Boot.Shell.Formats
open T113Boot.Shell.Numbers (digitBelow valueIn Reads)
open T113Boot.Shell.Printing
open T113Boot.Shell.XFormat
open T113Boot.Shell.XString (digitOf xstrtol)

theorem valueIn_append (base : Nat) (cs : CStr) (c : UInt8) :
    valueIn base (cs ++ [c]) = valueIn base cs * base + (digitOf c).getD 0 := by
  rw [valueIn, List.foldl_append]
  rfl

theorem digitOf_digit (upper : Bool) {d : Nat} (small : d < 16) :
    ∃ c, toUpper upper [msDigits.getD d 0] = [c] ∧ digitOf c = some d := by
  have all : ∀ upper : Bool, ∀ d : Fin 16,
      digitOf ((toUpper upper [msDigits.getD d 0]).headD 0) = some d.val := by decide
  exact ⟨_, rfl, all upper ⟨d, small⟩⟩

theorem toUpper_append (upper : Bool) (cs ds : CStr) :
    toUpper upper (cs ++ ds) = toUpper upper cs ++ toUpper upper ds :=
  List.map_append

theorem numeral_reads {base : Nat} (more : 1 < base) (few : base ≤ 16) (upper : Bool)
    (least n : Nat) :
    (∀ c ∈ toUpper upper (numeral base least n), digitBelow base c = true) ∧
      valueIn base (toUpper upper (numeral base least n)) = n := by
  induction total : least + n using Nat.strong_induction_on generalizing least n with
  | _ total ih =>
    by_cases left : 0 < least ∨ n ≠ 0
    · have small := Nat.mod_lt n (Nat.lt_trans Nat.zero_lt_one more)
      have less : n / base ≤ n := Nat.div_le_self n base
      have fewer : 0 < n → n / base < n := fun positive => Nat.div_lt_self positive more
      obtain ⟨c, char, digit⟩ := digitOf_digit upper (Nat.lt_of_lt_of_le small few)
      obtain ⟨all, value⟩ := ih (least - 1 + n / base) (by omega) (least - 1) (n / base) rfl
      rw [numeral_step more left, toUpper_append, char]
      constructor
      · intro c' member
        rcases List.mem_append.mp member with front | last
        · exact all c' front
        · rw [List.mem_singleton.mp last, digitBelow, digit]
          exact decide_eq_true small
      · rw [valueIn_append, value, digit, Option.getD_some, Nat.mul_comm, Nat.div_add_mod]
    · obtain ⟨rfl, rfl⟩ : least = 0 ∧ n = 0 := by omega
      rw [numeral_done]
      exact ⟨List.forall_mem_nil _, rfl⟩

theorem zeros_reads {base : Nat} (more : 1 < base) (k : Nat) {cs : CStr}
    (all : ∀ c ∈ cs, digitBelow base c = true) :
    (∀ c ∈ List.replicate k 0x30 ++ cs, digitBelow base c = true) ∧
      valueIn base (List.replicate k 0x30 ++ cs) = valueIn base cs := by
  induction k with
  | zero => exact ⟨all, rfl⟩
  | succ k ih =>
    have zero : digitBelow base 0x30 = true := decide_eq_true (Nat.lt_trans Nat.zero_lt_one more)
    rw [List.replicate_succ, List.cons_append]
    refine ⟨List.forall_mem_cons.mpr ⟨zero, ih.1⟩, Eq.trans ?_ ih.2⟩
    rw [valueIn, List.foldl_cons, Nat.zero_mul]
    rfl

theorem lay_eq {marks : List Mark} {width : Int} {upper : Bool} {lead body cs : CStr}
    (right : Mark.left ∉ marks) (printed : lay marks width upper lead body = some cs) :
    cs = toUpper upper lead ++ (List.replicate (width - (body.length + lead.length)).toNat
      (padOf marks) ++ toUpper upper body) := by
  unfold lay at printed
  dsimp only at printed
  split at printed
  · cases printed
  · exact (Option.some.inj printed).symm

theorem ofInt_magnitude (radix : Radix) (w : UInt32) {sign : CStr}
    (minus : sign = [0x2D] ↔ radix.negative w = true) :
    UInt32.ofInt (Ymodem.Header.signed sign (radix.magnitude w)) = w := by
  have small := w.toNat_lt
  apply UInt32.toNat_inj.mp
  rw [Ymodem.Header.signed, Radix.magnitude, UInt32.ofInt, UInt32.toNat_ofNat']
  by_cases negative : radix.negative w = true
  · rw [if_pos (minus.mpr negative), if_pos negative]
    omega
  · rw [if_neg (mt minus.mp negative), if_neg negative]
    omega

theorem xstrtol_number {radix : Radix} {blanks sign lead : CStr}
    (blank : ∀ c ∈ blanks, c = 0x20 ∨ c = 0x09)
    (form : sign = [] ∨ sign = [0x2D] ∨ sign = [0x2B]) {w : UInt32}
    (minus : sign = [0x2D] ↔ radix.negative w = true)
    (base : radix.base = 10 ∧ lead = [] ∨
      radix.base = 16 ∧ ∃ x, (x = 0x78 ∨ x = 0x58) ∧ lead = [0x30, x])
    (k : Nat) (upper : Bool) (prec : Int) :
    xstrtol (blanks ++ (sign ++ (lead ++
      (List.replicate k 0x30 ++ toUpper upper (radix.digits prec w))))) = .ok w := by
  have few : radix.base ≤ 16 := by
    rcases base with ⟨base, -⟩ | ⟨base, -⟩ <;> rw [base]
    decide
  obtain ⟨digits, value⟩ := numeral_reads (base_more radix) few upper (radix.least prec).toNat
    (radix.magnitude w)
  obtain ⟨all, same⟩ := zeros_reads (base_more radix) k digits
  have reads : Reads (blanks ++ (sign ++ (lead ++
      (List.replicate k 0x30 ++ toUpper upper (radix.digits prec w))))) sign radix.base
        (List.replicate k 0x30 ++ toUpper upper (radix.digits prec w)) := by
    refine ⟨blanks, _, rfl, blank, form, ?_, all⟩
    rcases base with ⟨base, rfl⟩ | ⟨base, x, hx, rfl⟩
    · exact .inl ⟨base, rfl⟩
    · exact .inr ⟨base, x, hx, rfl⟩
  rw [Numbers.xstrtol_reads reads, Radix.digits, same, value, ofInt_magnitude radix w minus]

theorem blank_replicate (k : Nat) {blanks : CStr} (blank : ∀ c ∈ blanks, c = 0x20 ∨ c = 0x09) :
    ∀ c ∈ blanks ++ List.replicate k 0x20, c = 0x20 ∨ c = 0x09 := by
  intro c member
  rcases List.mem_append.mp member with front | fill
  · exact blank c front
  · exact .inl (List.eq_of_mem_replicate fill)

theorem lower (cs : CStr) : toUpper false cs = cs := by
  simp [toUpper]

theorem sign_none {radix : Radix} {marks : List Mark} {w : UInt32}
    (sign : radix.sign marks w = none) : radix.negative w = false := by
  unfold Radix.sign at sign
  split at sign
  · cases sign
  · exact Bool.eq_false_iff.mpr ‹_›

theorem sign_some {radix : Radix} {marks : List Mark} {w : UInt32} {c : UInt8}
    (sign : radix.sign marks w = some c) :
    ([c] = [] ∨ [c] = [0x2D] ∨ [c] = [0x2B]) ∧ ([c] = [0x2D] ↔ radix.negative w = true) := by
  unfold Radix.sign at sign
  by_cases negative : radix.negative w = true
  · rw [if_pos negative] at sign
    cases sign
    exact ⟨.inr (.inl rfl), iff_of_true rfl negative⟩
  · rw [if_neg negative] at sign
    split at sign
    · cases sign
      exact ⟨.inr (.inr rfl), iff_of_false (by decide) negative⟩
    · cases sign

theorem printed_decimal {marks : List Mark} {width prec : Int} {radix : Radix} {w : UInt32}
    {cs : CStr} (base : radix.base = 10) (right : Mark.left ∉ marks)
    (printed : printInteger marks width prec radix w = some cs) : xstrtol cs = .ok w := by
  have small : radix.upper = false ∧ ∀ sharp, radix.lead sharp = [] := by
    cases radix <;> first | exact ⟨rfl, fun _ => rfl⟩ | cases base
  have blank : ∀ c ∈ radix.front marks w, c = 0x20 ∨ c = 0x09 := by
    unfold Radix.front
    rw [small.2]
    split
    · simp
    · simp
  have ten (k : Nat) (blanks : CStr) (isBlank : ∀ c ∈ blanks, c = 0x20 ∨ c = 0x09) (sign : CStr)
      (form : sign = [] ∨ sign = [0x2D] ∨ sign = [0x2B])
      (minus : sign = [0x2D] ↔ radix.negative w = true) : xstrtol (blanks ++ (sign ++
        (List.replicate k 0x30 ++ toUpper false (radix.digits prec w)))) = .ok w :=
    xstrtol_number isBlank form minus (.inl ⟨base, rfl⟩) k false prec
  unfold printInteger at printed
  rw [small.1] at printed
  dsimp only at printed
  split at printed
  · cases printed
  rcases sign : radix.sign marks w with _ | c
  · have plain : ([] : CStr) = [0x2D] ↔ radix.negative w = true :=
      iff_of_false (by decide) (by rw [sign_none sign]; decide)
    rw [sign] at printed
    rw [lay_eq right printed, lower (radix.front marks w)]
    by_cases zero : Mark.zero ∈ marks
    · rw [pad_zero.mpr zero]
      exact ten _ _ blank [] (.inl rfl) plain
    · rw [padOf, if_neg zero, ← List.append_assoc]
      exact ten 0 _ (blank_replicate _ blank) [] (.inl rfl) plain
  · obtain ⟨form, minus⟩ := sign_some sign
    rw [sign] at printed
    dsimp only at printed
    by_cases zero : Mark.zero ∈ marks
    · rw [if_pos zero] at printed
      rw [lay_eq right printed, lower [c], pad_zero.mpr zero]
      exact ten _ [] (List.forall_mem_nil _) [c] form minus
    · rw [if_neg zero] at printed
      split at printed
      · rw [lay_eq right printed, lower (radix.front marks w), padOf, if_neg zero,
          ← List.append_assoc, lower]
        rw [← lower (radix.digits prec w)]
        exact ten 0 _ (blank_replicate _ blank) [c] form minus
      · cases printed

theorem printed_hex {marks : List Mark} {width prec : Int} {radix : Radix} {w : UInt32} {cs : CStr}
    (hex : radix = .x ∨ radix = .X) (right : Mark.left ∉ marks) (unsigned : Mark.plus ∉ marks)
    (filled : Mark.zero ∈ marks ∨ width ≤ 0)
    (printed : printInteger marks width prec radix w = some cs) :
    (Mark.sharp ∈ marks → xstrtol cs = .ok w) ∧
      (Mark.sharp ∉ marks → xstrtol (0x30 :: 0x78 :: cs) = .ok w) := by
  have sixteen : radix.base = 16 := by rcases hex with rfl | rfl <;> rfl
  have natural : radix.negative w = false := by rcases hex with rfl | rfl <;> rfl
  have plain : ([] : CStr) = [0x2D] ↔ radix.negative w = true :=
    iff_of_false (by decide) (by rw [natural]; decide)
  have sign : radix.sign marks w = none := by
    rw [Radix.sign, natural, if_neg Bool.false_ne_true, if_neg unsigned]
  have front : radix.front marks w =
      if Mark.sharp ∈ marks ∧ w = 0 then [] else if Mark.sharp ∈ marks then [0x30, 0x78] else [] := by
    rcases hex with rfl | rfl <;> simp [Radix.front, Radix.isSigned, Radix.lead]
  unfold printInteger at printed
  rw [sign] at printed
  dsimp only at printed
  split at printed
  · cases printed
  obtain ⟨k, shape⟩ : ∃ k, cs = toUpper radix.upper (radix.front marks w) ++
      (List.replicate k 0x30 ++ toUpper radix.upper (radix.digits prec w)) := by
    rw [lay_eq right printed]
    by_cases zero : Mark.zero ∈ marks
    · exact ⟨_, by rw [pad_zero.mpr zero]⟩
    · have narrow := filled.resolve_left zero
      refine ⟨0, ?_⟩
      rw [Int.toNat_of_nonpos (by omega)]
      rfl
  rw [shape, front]
  constructor
  · intro sharp
    by_cases none : w = 0
    · subst none
      have same : radix.digits prec 0 = Radix.digits .u prec 0 := by
        rcases hex with rfl | rfl <;> simp [Radix.digits, numeral, Radix.least, Radix.magnitude,
          Radix.negative, Radix.isSigned, Radix.pointer]
      rw [if_pos ⟨sharp, rfl⟩, same]
      have plain : ([] : CStr) = [0x2D] ↔ Radix.u.negative 0 = true := by decide
      exact xstrtol_number (List.forall_mem_nil _) (.inl rfl) plain (.inl ⟨rfl, rfl⟩) k
        radix.upper prec
    · rw [if_neg fun both => none both.2, if_pos sharp]
      have lead : ∃ x, (x = 0x78 ∨ x = 0x58) ∧ toUpper radix.upper [0x30, 0x78] = [0x30, x] := by
        rcases hex with rfl | rfl
        · exact ⟨0x78, .inl rfl, rfl⟩
        · exact ⟨0x58, .inr rfl, rfl⟩
      exact xstrtol_number (List.forall_mem_nil _) (.inl rfl) plain (.inr ⟨sixteen, lead⟩) k
        radix.upper prec
  · intro bare
    rw [if_neg fun both => bare both.1, if_neg bare]
    exact xstrtol_number (List.forall_mem_nil _) (.inl rfl) plain
      (.inr ⟨sixteen, 0x78, .inl rfl, rfl⟩) k radix.upper prec

theorem read_rest {amount : Amount} {args rest : List UInt32} {n : Int}
    (read : amount.read args = some (n, rest)) : rest = args.drop amount.stars := by
  rcases amount with ds | _
  · simp only [Amount.read] at read
    split at read
    · cases read
      rfl
    · cases read
  · rcases args with _ | ⟨w, args⟩
    · cases read
    · cases read
      rfl

theorem print_value {text : UInt32 → CStr} {f : Field} {args rest : List UInt32} {cs : CStr}
    (printed : f.print text args = some (cs, rest)) : ∃ width prec w, args[f.stars]? = some w ∧
      (f.width = .digits [] → width = 0) ∧
      printValue text f.marks width prec w f.kind = some cs := by
  obtain ⟨⟨width, args1⟩, widthRead, printed⟩ := Option.bind_eq_some_iff.mp printed
  obtain ⟨⟨prec, args2⟩, precRead, printed⟩ := Option.bind_eq_some_iff.mp printed
  obtain ⟨⟨w, args3⟩, value, printed⟩ := Option.bind_eq_some_iff.mp printed
  obtain ⟨cs', shown, same⟩ := Option.map_eq_some_iff.mp printed
  cases same
  refine ⟨width, prec, w, ?_, ?_, shown⟩
  · have first := read_rest widthRead
    have second : args2 = args1.drop (f.prec.elim 0 Amount.stars) := by
      rcases prec : f.prec with _ | amount
      · rw [prec] at precRead
        cases precRead
        rfl
      · rw [prec] at precRead
        exact read_rest precRead
    rcases args2 with _ | ⟨w', args2⟩
    · cases value
    · cases value
      rw [first, List.drop_drop] at second
      have here := congrArg (fun l : List UInt32 => l[0]?) second
      simpa [Field.stars, List.getElem?_drop] using here.symm
  · intro none
    rw [none] at widthRead
    cases widthRead
    rfl

theorem length_numeral {base : Nat} (more : 1 < base) (least n : Nat) (small : n < 4294967296) :
    least ≤ (numeral base least n).length ∧
      ((numeral base least n).length ≤ least ∨ (numeral base least n).length ≤ 32) := by
  have few : (Nat.digits base n).length ≤ 32 := by
    rw [Nat.digits_length_le_iff more]
    exact Nat.lt_of_lt_of_le small (Nat.pow_le_pow_left more 32)
  rw [numeral, List.length_map, List.length_append, List.length_replicate, List.length_reverse]
  omega

theorem lay_isSome {marks : List Mark} {width : Int} {upper : Bool} {lead body : CStr}
    (positive : 0 ≤ width) (short : body.length + lead.length ≤ 2147483648) :
    (lay marks width upper lead body).isSome := by
  unfold lay
  dsimp only
  rw [if_neg (by unfold intMin; omega)]
  rfl

theorem front_short (radix : Radix) (marks : List Mark) (w : UInt32) :
    (radix.front marks w).length ≤ 2 := by
  unfold Radix.front
  split
  · exact Nat.le_succ 1
  · split
    · exact Nat.zero_le 2
    · exact lead_short radix _

theorem magnitude_lt (radix : Radix) (w : UInt32) : radix.magnitude w < 4294967296 := by
  unfold Radix.magnitude
  split
  · rename_i negative
    have minus : signed w < 0 := by
      unfold Radix.negative at negative
      exact (of_decide_eq_true negative).2
    rw [← minus_toNat minus]
    exact UInt32.toNat_lt _
  · exact w.toNat_lt

theorem printInteger_isSome {marks : List Mark} {width prec : Int} {radix : Radix} {w : UInt32}
    (positive : 0 ≤ width) (natural : 0 ≤ prec) :
    (printInteger marks width prec radix w).isSome ↔ radix.least prec ≤
      if .zero ∈ marks ∨ radix.sign marks w = none then 33 else 32 := by
  have front := front_short radix marks w
  obtain ⟨least, most⟩ := length_numeral (base_more radix) (radix.least prec).toNat _
    (magnitude_lt radix w)
  have some_digit : 0 ≤ radix.least prec := by
    unfold Radix.least
    split <;> [skip; split] <;> omega
  unfold printInteger
  change _ ≤ (radix.digits prec w).length at least
  change (radix.digits prec w).length ≤ _ ∨ (radix.digits prec w).length ≤ 32 at most
  dsimp only
  by_cases large : 33 < radix.least prec
  · rw [if_pos (.inr (by unfold bufferSize; omega))]
    refine iff_of_false Bool.false_ne_true ?_
    split <;> omega
  rw [if_neg (by unfold intMin bufferSize; omega)]
  rcases sign : radix.sign marks w with _ | c
  · refine iff_of_true (lay_isSome positive (by omega)) ?_
    rw [if_pos (.inr rfl)]
    omega
  dsimp only
  by_cases zero : Mark.zero ∈ marks
  · rw [if_pos zero, if_pos (.inl zero)]
    exact iff_of_true (lay_isSome positive (by rw [List.length_singleton]; omega)) (by omega)
  · have unpadded : ¬ (Mark.zero ∈ marks ∨ some c = none) := by simp [zero]
    rw [if_neg zero, if_neg unpadded]
    unfold bufferSize
    by_cases room : (radix.digits prec w).length < 33
    · rw [if_pos room]
      exact iff_of_true (lay_isSome positive (by rw [List.length_cons]; omega)) (by omega)
    · rw [if_neg room]
      exact iff_of_false Bool.false_ne_true (by omega)

theorem printText_isSome {marks : List Mark} {width : Int} {upper : Bool} {cs : CStr}
    (positive : 0 ≤ width) (short : cs.length < 2147483648) :
    (printText marks width upper cs).isSome := by
  refine lay_isSome positive ?_
  split
  · rw [List.length_take, List.length_nil]
    omega
  · rw [List.length_nil]
    omega

theorem read_fixed {amount : Amount} (fixed : amount.stars = 0) (args : List UInt32) :
    amount.read args =
      if amount.value ≤ 2147483647 then some ((amount.value : Int), args) else none := by
  rcases amount with ds | _
  · rfl
  · cases fixed

theorem read_limit {f : Field} (fixed : f.prec.elim 0 Amount.stars = 0) (args : List UInt32) :
    f.prec.elim (some (0, args)) (Amount.read args) =
      if f.limit ≤ 2147483647 then some ((f.limit : Int), args) else none := by
  rw [Field.limit]
  revert fixed
  rcases f.prec with _ | amount
  · exact fun _ => rfl
  · exact fun fixed => read_fixed fixed args

theorem print_fixed (text : UInt32 → CStr) {f : Field} (fixed : f.Fixed) (w : UInt32)
    (args : List UInt32) : f.print text (w :: args) =
      if f.width.value ≤ 2147483647 ∧ f.limit ≤ 2147483647 then
        (printValue text f.marks f.width.value f.limit w f.kind).map fun cs => (cs, args)
      else none := by
  rw [Field.print, read_fixed fixed.1]
  by_cases wide : f.width.value ≤ 2147483647
  · rw [if_pos wide, Option.bind_some]
    dsimp only
    rw [read_limit fixed.2]
    by_cases long : f.limit ≤ 2147483647
    · rw [if_pos long, if_pos ⟨wide, long⟩]
      rfl
    · rw [if_neg long, if_neg fun both => long both.2]
      rfl
  · rw [if_neg wide, if_neg fun both => wide both.1]
    rfl

theorem printValue_isSome {text : UInt32 → CStr} (short : ∀ w, (text w).length < 2147483648)
    {marks : List Mark} {width prec : Int} (positive : 0 ≤ width) (natural : 0 ≤ prec) (w : UInt32)
    (kind : Kind) : (printValue text marks width prec w kind).isSome ↔
      ∀ radix, kind = .integer radix → radix.least prec ≤
        if .zero ∈ marks ∨ radix.sign marks w = none then 33 else 32 := by
  have string : (if w = 0 then msNull else text w).length < 2147483648 := by
    split
    · decide
    · exact short w
  have one : 1 < 2147483648 := by decide
  rcases kind with radix | _ | _ | _ | _ | _
  · exact (printInteger_isSome positive natural).trans ⟨fun fits _ same => by cases same; exact fits,
      fun fits => fits radix rfl⟩
  · exact iff_of_true (printText_isSome positive string) fun _ same => by cases same
  · exact iff_of_true (printText_isSome positive string) fun _ same => by cases same
  · exact iff_of_true (printText_isSome positive one) fun _ same => by cases same
  · exact iff_of_true (printText_isSome positive one) fun _ same => by cases same
  · refine iff_of_true (printText_isSome positive ?_) fun _ same => by cases same
    unfold Kind.body
    dsimp only
    split <;> decide

theorem field_isSome {text : UInt32 → CStr} (short : ∀ w, (text w).length < 2147483648) {f : Field}
    (fixed : f.Fixed) (w : UInt32) (args : List UInt32) : (f.print text (w :: args)).isSome ↔
      f.width.value ≤ 2147483647 ∧ f.limit ≤ 2147483647 ∧
        ∀ radix, f.kind = .integer radix → radix.least f.limit ≤
          if .zero ∈ f.marks ∨ radix.sign f.marks w = none then 33 else 32 := by
  rw [print_fixed text fixed, ← and_assoc]
  by_cases fits : f.width.value ≤ 2147483647 ∧ f.limit ≤ 2147483647
  · rw [if_pos fits, Option.isSome_map, printValue_isSome short (Int.natCast_nonneg _)
      (Int.natCast_nonneg _)]
    exact (and_iff_right fits).symm
  · rw [if_neg fits]
    exact iff_of_false Bool.false_ne_true fun both => fits both.1

theorem field_rest {text : UInt32 → CStr} {f : Field} (fixed : f.Fixed) {w : UInt32}
    {args rest : List UInt32} {cs : CStr} (printed : f.print text (w :: args) = some (cs, rest)) :
    rest = args := by
  rw [print_fixed text fixed] at printed
  split at printed
  · obtain ⟨_, -, same⟩ := Option.map_eq_some_iff.mp printed
    cases same
    rfl
  · cases printed

def fieldsOf (items : List Item) : Nat := (items.map Item.fields).sum

theorem fieldsOf_cons (item : Item) (items : List Item) :
    fieldsOf (item :: items) = item.fields + fieldsOf items := by
  rw [fieldsOf, List.map_cons, List.sum_cons, fieldsOf]

theorem safe_field {text : UInt32 → CStr} (short : ∀ w, (text w).length < 2147483648) {f : Field}
    (fixed : f.Fixed) (safe : f.Safe) (w : UInt32) (args : List UInt32) :
    (f.print text (w :: args)).isSome := by
  refine (field_isSome short fixed w args).mpr ⟨safe.1, safe.2.1, fun radix integer => ?_⟩
  have fits := safe.2.2 radix integer
  by_cases padded : Mark.zero ∈ f.marks ∨ radix.sign f.marks w = none
  · rw [if_pos padded]
    split at fits <;> omega
  · have signed : ¬ (Mark.zero ∈ f.marks ∨ ¬ (radix.isSigned ∨ .plus ∈ f.marks)) := by
      rintro (zero | unsigned)
      · exact padded (.inl zero)
      · apply padded
        right
        obtain ⟨natural, bare⟩ := not_or.mp unsigned
        rw [Radix.sign, Radix.negative]
        simp [natural, bare]
    rw [if_neg signed] at fits
    rw [if_neg padded]
    exact fits

theorem unsafe_field {text : UInt32 → CStr} (short : ∀ w, (text w).length < 2147483648) {f : Field}
    (fixed : f.Fixed) {args : List UInt32} (printed : (f.print text (0x80000000 :: args)).isSome) :
    f.Safe := by
  obtain ⟨width, prec, fits⟩ := (field_isSome short fixed _ args).mp printed
  refine ⟨width, prec, fun radix integer => ?_⟩
  have sign : radix.sign f.marks 0x80000000 = none ↔ ¬ (radix.isSigned ∨ .plus ∈ f.marks) := by
    have minus : signed 0x80000000 < 0 := by decide
    rw [Radix.sign, Radix.negative]
    cases radix.isSigned <;> by_cases plus : Mark.plus ∈ f.marks <;> simp [minus, plus]
  simpa only [sign] using fits radix integer

theorem safe_items {text : UInt32 → CStr} (short : ∀ w, (text w).length < 2147483648)
    {items : List Item} (fixed : ∀ f, .field f ∈ items → f.Fixed)
    (safe : ∀ f, .field f ∈ items → f.Safe) {args : List UInt32}
    (enough : fieldsOf items ≤ args.length) : (printItems text items args).isSome := by
  induction items generalizing args with
  | nil => rfl
  | cons item items ih =>
    have fixed' (f : Field) (member : .field f ∈ items) := fixed f (List.mem_cons_of_mem _ member)
    have safe' (f : Field) (member : .field f ∈ items) := safe f (List.mem_cons_of_mem _ member)
    rw [fieldsOf_cons] at enough
    rw [printItems]
    rcases item with ⟨c, plain⟩ | _ | f
    · rw [Item.fields, Nat.zero_add] at enough
      simpa [Item.print] using ih fixed' safe' enough
    · rw [Item.fields, Nat.zero_add] at enough
      simpa [Item.print] using ih fixed' safe' enough
    · rcases args with _ | ⟨w, args⟩
      · exact absurd enough (by simp [Item.fields])
      · obtain ⟨⟨cs, rest⟩, printed⟩ := Option.isSome_iff_exists.mp (safe_field short
          (fixed f List.mem_cons_self) (safe f List.mem_cons_self) w args)
        obtain rfl := field_rest (fixed f List.mem_cons_self) printed
        rw [Item.fields, Nat.add_comm] at enough
        have more := ih fixed' safe' (Nat.le_of_succ_le_succ enough)
        rw [Item.print, printed]
        simpa using more

theorem unsafe_items {text : UInt32 → CStr} (short : ∀ w, (text w).length < 2147483648)
    {items : List Item} (fixed : ∀ f, .field f ∈ items → f.Fixed) {n : Nat}
    (enough : fieldsOf items ≤ n)
    (printed : (printItems text items (List.replicate n 0x80000000)).isSome) :
    ∀ f, .field f ∈ items → f.Safe := by
  induction items generalizing n with
  | nil => exact fun f member => by cases member
  | cons item items ih =>
    have fixed' (f : Field) (member : .field f ∈ items) := fixed f (List.mem_cons_of_mem _ member)
    rw [fieldsOf_cons] at enough
    rw [printItems] at printed
    rcases item with ⟨c, plain⟩ | _ | f
    · rw [Item.fields, Nat.zero_add] at enough
      have rest := ih fixed' enough (by simpa [Item.print] using printed)
      simpa using rest
    · rw [Item.fields, Nat.zero_add] at enough
      have rest := ih fixed' enough (by simpa [Item.print] using printed)
      simpa using rest
    · rw [Item.fields] at enough
      obtain ⟨n, rfl⟩ := Nat.exists_eq_succ_of_ne_zero (n := n) (by omega)
      rw [List.replicate_succ, Item.print] at printed
      rcases shown : f.print text (0x80000000 :: List.replicate n 0x80000000) with _ | ⟨cs, rest⟩
      · rw [shown] at printed
        cases printed
      · obtain rfl := field_rest (fixed f List.mem_cons_self) shown
        have safe := unsafe_field short (fixed f List.mem_cons_self) (by rw [shown]; rfl)
        rw [shown] at printed
        have rest := ih fixed' (n := n) (by omega) (by simpa using printed)
        intro f' member
        rcases List.mem_cons.mp member with same | member
        · cases same
          exact safe
        · exact rest f' member

/-- A format whose widths and precisions stand in it prints whatever its arguments are, and never
leaves its buffer, exactly if each of its fields is safe. -/
theorem xvformat_safe_iff {text : UInt32 → CStr} (short : ∀ w, (text w).length < 2147483648)
    (p : Param) {items : List Item} (fixed : ∀ f, .field f ∈ items → f.Fixed) :
    (∀ args : List UInt32, fieldsOf items ≤ args.length →
        (xvformat text p (items.flatMap Item.show) args).isSome) ↔
      ∀ f, .field f ∈ items → f.Safe := by
  simp only [xvformat_prints short, Option.isSome_map]
  constructor
  · intro prints
    exact unsafe_items short fixed (Nat.le_refl _) (prints _ (by rw [List.length_replicate]))
  · exact fun safe args enough => safe_items short fixed safe enough

/-- `%08x` is safe, and prints. -/
theorem address_safe : (xvformat (fun _ => []) noParam [0x25, 0x30, 0x38, 0x78] [0x20000]).isSome := by
  have address : ∀ f, Item.field f ∈ [Item.field ⟨[.zero], .digits [8], by decide, none, [],
      .integer .x⟩] → f.Fixed ∧ f.Safe := by
    intro f member
    cases List.mem_singleton.mp member
    refine ⟨⟨rfl, rfl⟩, by decide, by decide, fun radix same => ?_⟩
    cases same
    decide
  exact (xvformat_safe_iff (fun _ => by decide) noParam fun f member => (address f member).1).mpr
    (fun f member => (address f member).2) [0x20000] (by decide)

/-- A decimal number that is not padded behind. -/
def Decimal (f : Field) : Prop :=
  (f.kind = .integer .d ∨ f.kind = .integer .i ∨ f.kind = .integer .u) ∧ .left ∉ f.marks

/-- A hexadecimal number with nothing but zeros in front of its digits. -/
def Hexadecimal (f : Field) : Prop :=
  (f.kind = .integer .x ∨ f.kind = .integer .X) ∧ .left ∉ f.marks ∧ .plus ∉ f.marks ∧
    (.zero ∈ f.marks ∨ f.width = .digits [])

/-- The formats of a number that the shell reads back. -/
inductive NumberFormat (f : Field) : CStr → Prop
  | decimal (number : Decimal f) : NumberFormat f f.show
  | sharp (number : Hexadecimal f) (sharp : .sharp ∈ f.marks) : NumberFormat f f.show
  | behind (number : Hexadecimal f) (bare : .sharp ∉ f.marks) :
    NumberFormat f (0x30 :: 0x78 :: f.show)

theorem xvformat_items {text : UInt32 → CStr} (short : ∀ w, (text w).length < 2147483648)
    {p : Param} {items : List Item} {args : List UInt32} {cs : CStr} {n : UInt32}
    (printed : xvformat text p (items.flatMap Item.show) args = some (cs, n)) :
    printItems text items args = some cs := by
  rw [xvformat_prints short] at printed
  obtain ⟨cs', shown, same⟩ := Option.map_eq_some_iff.mp printed
  cases same
  exact shown

theorem printItems_field {text : UInt32 → CStr} {f : Field} {args : List UInt32} {cs : CStr}
    (printed : printItems text [.field f] args = some cs) :
    ∃ rest, f.print text args = some (cs, rest) := by
  obtain ⟨⟨cs', rest⟩, shown, same⟩ := Option.bind_eq_some_iff.mp printed
  simp only [printItems, Option.map_some, List.append_nil, Option.some.injEq] at same
  exact ⟨rest, same ▸ shown⟩

/-- The number that a field printed is read back, behind `0x` if the field did not print that. -/
theorem field_reads_back {text : UInt32 → CStr} {f : Field} {args rest : List UInt32} {cs : CStr}
    (printed : f.print text args = some (cs, rest)) : ∃ w, args[f.stars]? = some w ∧
      (Decimal f → xstrtol cs = .ok w) ∧
      (Hexadecimal f → (.sharp ∈ f.marks → xstrtol cs = .ok w) ∧
        (.sharp ∉ f.marks → xstrtol (0x30 :: 0x78 :: cs) = .ok w)) := by
  obtain ⟨width, prec, w, value, unpadded, shown⟩ := print_value printed
  refine ⟨w, value, ?_, ?_⟩
  · rintro ⟨kind | kind | kind, right⟩ <;> rw [kind] at shown <;>
      exact printed_decimal rfl right shown
  · rintro ⟨kind, right, unsigned, filled⟩
    have narrow : Mark.zero ∈ f.marks ∨ width ≤ 0 :=
      filled.imp_right fun none => Int.le_of_eq (unpadded none)
    rcases kind with kind | kind <;> rw [kind] at shown
    · exact printed_hex (.inl rfl) right unsigned narrow shown
    · exact printed_hex (.inr rfl) right unsigned narrow shown

/-- The shell reads the numbers that it prints. -/
theorem numbers_read_back {text : UInt32 → CStr} (short : ∀ w, (text w).length < 2147483648)
    {p : Param} {f : Field} {fmt : CStr} (number : NumberFormat f fmt) {args : List UInt32}
    {cs : CStr} {n : UInt32} (printed : xvformat text p fmt args = some (cs, n)) :
    ∃ w, args[f.stars]? = some w ∧ xstrtol cs = .ok w := by
  have alone : [Item.field f].flatMap Item.show = f.show := List.flatMap_singleton ..
  rcases number with ⟨decimal⟩ | ⟨hex, sharp⟩ | ⟨hex, bare⟩
  · rw [← alone] at printed
    obtain ⟨rest, shown⟩ := printItems_field (xvformat_items short printed)
    obtain ⟨w, value, reads, -⟩ := field_reads_back shown
    exact ⟨w, value, reads decimal⟩
  · rw [← alone] at printed
    obtain ⟨rest, shown⟩ := printItems_field (xvformat_items short printed)
    obtain ⟨w, value, -, reads⟩ := field_reads_back shown
    exact ⟨w, value, (reads hex).1 sharp⟩
  · have three : 0x30 :: 0x78 :: f.show = [Item.char 0x30 (by decide), .char 0x78 (by decide),
        .field f].flatMap Item.show := by
      rw [← alone]
      rfl
    rw [three] at printed
    obtain ⟨cs1, behind, rfl⟩ := Option.map_eq_some_iff.mp (xvformat_items short printed)
    obtain ⟨cs2, last, rfl⟩ := Option.map_eq_some_iff.mp behind
    obtain ⟨rest, shown⟩ := printItems_field last
    obtain ⟨w, value, -, reads⟩ := field_reads_back shown
    exact ⟨w, value, (reads hex).2 bare⟩

/-- `%#010x` prints 0x20000 as `0x00020000`, and that is read back. -/
theorem address_reads_back : ∃ w, [(0x20000 : UInt32)][0]? = some w ∧
    xstrtol [0x30, 0x78, 0x30, 0x30, 0x30, 0x32, 0x30, 0x30, 0x30, 0x30] = .ok w := by
  have address : NumberFormat ⟨[.sharp, .zero], .digits [1, 0], by decide, none, [], .integer .x⟩
      [0x25, 0x23, 0x30, 0x31, 0x30, 0x78] :=
    .sharp ⟨.inl rfl, by decide, by decide, .inl (by decide)⟩ (by decide)
  have printed : xvformat (fun _ => []) noParam [0x25, 0x23, 0x30, 0x31, 0x30, 0x78] [0x20000] =
      some ([0x30, 0x78, 0x30, 0x30, 0x30, 0x32, 0x30, 0x30, 0x30, 0x30], 10) := by decide +kernel
  exact numbers_read_back (fun _ => by decide) address printed

end T113Boot.Shell.PrintedNumbers
