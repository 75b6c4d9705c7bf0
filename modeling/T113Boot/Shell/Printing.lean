/- Module: T113Boot/Shell/Printing
   layer: refinement
   digest: The machine of xvformat prints a format field by field. -/

import T113Boot.Lib.Parallel
import T113Boot.Shell.Formats

set_option autoImplicit false
set_option relaxedAutoImplicit false

namespace T113Boot.Shell.Printing

open T113Boot.Lib.Parallel
open T113Boot.Storage.Table (CStr)
open T113Boot.Shell.XFormat
open T113Boot.Shell.Formats

def flagsOf (type : ArgType) (marks : List Mark) : Flags :=
  ⟨type, .left ∈ marks, .blank ∈ marks, .sharp ∈ marks, .plus ∈ marks, false, false, false, false⟩

def padOf (marks : List Mark) : UInt8 := if .zero ∈ marks then 0x30 else 0x20

/-- Outside of the fields the machine has sent `out`, and counted it. -/
structure Outside (s : Machine) (out : CStr) (args : List UInt32) : Prop where
  state : s.param.state = .normal ∨ s.param.state = .type
  sent : s.sent = out
  count : s.param.count = .ofNat out.length
  args : s.args = args

/-- Inside a field it has read `marks`, `width` and `prec` too. -/
structure Inside (s : Machine) (states : List State) (marks : List Mark) (width prec : Int)
    (out : CStr) (args : List UInt32) : Prop where
  state : s.param.state ∈ states
  sent : s.sent = out
  count : s.param.count = .ofNat out.length
  args : s.args = args
  length : s.param.length = 0
  prefixlen : s.param.prefixlen = 0
  width : s.param.width = width
  prec : s.param.prec = prec
  flags : ∃ type, s.param.flags = flagsOf type marks
  pad : s.param.pad = padOf marks

variable {text : UInt32 → CStr} {s : Machine} {states : List State} {marks : List Mark}
  {width prec : Int} {out : CStr} {args : List UInt32}

theorem next_plain {c : UInt8} (plain : c ≠ 0x25) {state : State}
    (outside : state = .normal ∨ state = .type) : state.next c = .normal := by
  have all : ∀ c : Fin 256, c ≠ 0x25 → State.next .normal (.ofNat c) = .normal ∧
      State.next .type (.ofNat c) = .normal := by decide +kernel
  have here := all ⟨c.toNat, c.toNat_lt⟩ fun same => plain (UInt8.toNat_inj.mp (congrArg Fin.val same))
  rw [UInt8.ofNat_toNat] at here
  rcases outside with rfl | rfl
  · exact here.1
  · exact here.2

theorem next_percent {state : State} (outside : state = .normal ∨ state = .type) :
    state.next 0x25 = .percent := by
  rcases outside with rfl | rfl <;> decide

def marking : List State := [.percent, .flag]

def widening : List State := [.percent, .flag, .width]

def limiting : List State := [.percent, .flag, .width, .dot, .precis]

def sizing : List State := [.percent, .flag, .width, .dot, .precis, .size]

theorem next_mark {state : State} (inside : state ∈ marking) (mark : Mark) :
    state.next mark.char = .flag := by
  revert state
  cases mark <;> decide

theorem next_digit {state : State} (inside : state ∈ widening) {d : Fin 10}
    (late : state = .width ∨ d ≠ 0) : state.next (digitChar d) = .width := by
  revert d state
  decide

theorem next_star {state : State} (inside : state ∈ marking) : state.next 0x2A = .width := by
  revert state
  decide

theorem next_dot {state : State} (inside : state ∈ widening) : state.next 0x2E = .dot := by
  revert state
  decide

theorem next_prec {state : State} (inside : state = .dot ∨ state = .precis) (d : Fin 10) :
    state.next (digitChar d) = .precis := by
  rcases inside with rfl | rfl <;> revert d <;> decide

theorem next_size {state : State} (inside : state ∈ sizing) (size : Size) :
    state.next size.char = .size := by
  revert state
  cases size <;> decide

theorem next_kind {state : State} (inside : state ∈ sizing) (kind : Kind) :
    state.next kind.char = .type := by
  revert state
  rcases kind with radix | _ | _ | _ | _ | _
  · cases radix <;> decide
  all_goals decide

def moved (s : Machine) (state : State) : Param := { s.param with state }

theorem take_normal {c : UInt8} (next : s.param.state.next c = .normal) :
    takeChar text s c = some (Machine.send { s with param := moved s .normal } [c]) := by
  unfold takeChar
  rw [next]
  rfl

theorem take_percent {c : UInt8} (next : s.param.state.next c = .percent) :
    takeChar text s c = some { s with param := { moved s .percent with
      length := 0, prefixlen := 0, width := 0, prec := 0, flags := noFlags, pad := 0x20 } } := by
  unfold takeChar
  rw [next]
  rfl

theorem take_flag {c : UInt8} (next : s.param.state.next c = .flag) :
    takeChar text s c = some { s with param := readFlag (moved s .flag) c } := by
  unfold takeChar
  rw [next]
  rfl

theorem take_width {c : UInt8} (next : s.param.state.next c = .width) :
    takeChar text s c = (readCount s.param.width c s.args).map fun (width, args) =>
      { s with param := { moved s .width with width }, args } := by
  unfold takeChar
  rw [next]
  rfl

theorem take_dot {c : UInt8} (next : s.param.state.next c = .dot) :
    takeChar text s c = some { s with param := moved s .dot } := by
  unfold takeChar
  rw [next]
  rfl

theorem take_precis {c : UInt8} (next : s.param.state.next c = .precis) :
    takeChar text s c = (readCount s.param.prec c s.args).map fun (prec, args) =>
      { s with param := { moved s .precis with prec }, args } := by
  unfold takeChar
  rw [next]
  rfl

theorem take_size {c : UInt8} (next : s.param.state.next c = .size) :
    takeChar text s c = some
      { s with param := { moved s .size with flags := readSize s.param.flags c } } := by
  unfold takeChar
  rw [next]
  rfl

theorem take_type {c : UInt8} (next : s.param.state.next c = .type) :
    takeChar text s c = (readType text (moved s .type) c s.args).bind fun (p, args) =>
      (if p.flags.integer then processInteger p args else some (cutOff p, args)).bind
        fun (p, args) => (field p).map (Machine.send ⟨p, args, s.sent⟩) := by
  unfold takeChar
  rw [next]
  rfl

variable (text) in
theorem open_field (outside : Outside s out args) : ∃ s', takeChar text s 0x25 = some s' ∧
    Inside s' marking [] 0 0 out args :=
  ⟨_, take_percent (next_percent outside.state), List.mem_cons_self, outside.sent, outside.count,
    outside.args, rfl, rfl, rfl, rfl, ⟨.int, rfl⟩, rfl⟩

theorem readFlag_mark {p : Param} {type : ArgType} (flags : p.flags = flagsOf type marks)
    (pad : p.pad = padOf marks) (mark : Mark) : readFlag p mark.char =
      { p with flags := flagsOf type (marks ++ [mark]), pad := padOf (marks ++ [mark]) } := by
  obtain ⟨lvalue, out, length, prec, width, count, _, prefixlen, prefix0, prefix1, radix, _, state⟩ := p
  obtain rfl : _ = flagsOf type marks := flags
  obtain rfl : _ = padOf marks := pad
  cases mark <;> simp [readFlag, Mark.char, flagsOf, padOf]

variable (text) in
theorem read_marks (more : List Mark) (inside : Inside s marking marks 0 0 out args) :
    ∃ s', (more.map Mark.char).foldlM (takeChar text) s = some s' ∧
      Inside s' marking (marks ++ more) 0 0 out args := by
  induction more generalizing s marks with
  | nil => exact ⟨s, rfl, by rwa [List.append_nil]⟩
  | cons mark more ih =>
    obtain ⟨type, flags⟩ := inside.flags
    have one : ∃ t, takeChar text s mark.char = some t ∧
        Inside t marking (marks ++ [mark]) 0 0 out args := by
      rw [take_flag (next_mark inside.state mark),
        readFlag_mark (p := moved s .flag) flags inside.pad]
      exact ⟨_, rfl, List.mem_cons_of_mem _ List.mem_cons_self, inside.sent, inside.count,
        inside.args, inside.length, inside.prefixlen, inside.width, inside.prec, ⟨type, rfl⟩, rfl⟩
    obtain ⟨t, took, next⟩ := one
    obtain ⟨s', rest, done⟩ := ih next
    rw [List.append_assoc, List.singleton_append] at done
    exact ⟨s', by rw [List.map_cons, List.foldlM_cons, took]; exact rest, done⟩

/-- The number that digits behind a number stand for. -/
def valueFrom (n : Nat) (ds : List (Fin 10)) : Nat :=
  ds.foldl (fun value d => value * 10 + d.val) n

theorem le_valueFrom (n : Nat) (ds : List (Fin 10)) : n ≤ valueFrom n ds := by
  induction ds generalizing n with
  | nil => exact Nat.le_refl n
  | cons d ds ih => exact Nat.le_trans (by omega) (ih (n * 10 + d.val))

theorem readCount_digit (n : Nat) (d : Fin 10) (args : List UInt32) :
    readCount n (digitChar d) args =
      if n * 10 + d.val ≤ 2147483647 then some (((n * 10 + d.val : Nat) : Int), args) else none := by
  have digit : digitChar d ≠ 0x2A ∧ ((digitChar d).toNat : Int) - 0x30 = d.val := by
    revert d
    decide
  unfold readCount addDigit
  rw [if_neg digit.1, digit.2]
  dsimp only
  by_cases fits : n * 10 + d.val ≤ 2147483647
  · rw [if_pos fits, if_pos (by omega)]
    simp
  · rw [if_neg fits, if_neg (by omega)]
    rfl

/-- A digit or a star goes on from the number `n`, and keeps `P`. -/
def Takes (text : UInt32 → CStr) (args : List UInt32)
    (P : Machine → Int × List UInt32 → Prop) (s : Machine) (n : Int) (c : UInt8) : Prop :=
  ∃ f, takeChar text s c = (readCount n c args).map f ∧ ∀ read, P (f read) read

section Amounts

variable {P : Machine → Int × List UInt32 → Prop}
  (step : ∀ s n d, P s (n, args) → Takes text args P s n (digitChar d))

include step

theorem read_digits {n : Nat} {d : Fin 10} (first : Takes text args P s n (digitChar d))
    (ds : List (Fin 10)) :
    Option.Rel P (((d :: ds).map digitChar).foldlM (takeChar text) s)
      (if valueFrom n (d :: ds) ≤ 2147483647 then some ((valueFrom n (d :: ds) : Int), args)
        else none) := by
  induction ds generalizing s n d with
  | nil =>
    obtain ⟨f, took, next⟩ := first
    rw [List.map_cons, List.foldlM_cons, took, readCount_digit]
    by_cases fits : n * 10 + d.val ≤ 2147483647
    · rw [if_pos fits, if_pos (show valueFrom n [d] ≤ 2147483647 from fits)]
      exact .some (next _)
    · rw [if_neg fits, if_neg (show ¬ valueFrom n [d] ≤ 2147483647 from fits)]
      exact .none
  | cons d' ds ih =>
    obtain ⟨f, took, next⟩ := first
    rw [List.map_cons, List.foldlM_cons, took, readCount_digit]
    by_cases fits : n * 10 + d.val ≤ 2147483647
    · rw [if_pos fits]
      exact ih (step _ _ d' (next _))
    · have large := le_valueFrom (n * 10 + d.val) (d' :: ds)
      rw [if_neg fits, if_neg (show ¬ valueFrom n (d :: d' :: ds) ≤ 2147483647 from
        fun small => fits (Nat.le_trans large small))]
      exact .none

theorem read_amount {Q : Machine → Int × List UInt32 → Prop}
    (weaken : ∀ s read, P s read → Q s read) (amount : Amount)
    (absent : amount = .digits [] → Q s (0, args))
    (present : ∀ c ∈ amount.show.head?, Takes text args P s 0 c) :
    Option.Rel Q (amount.show.foldlM (takeChar text) s) (amount.read args) := by
  rcases amount with (_ | ⟨d, ds⟩) | _
  · exact .some (absent rfl)
  · exact rel_imp weaken (read_digits step (n := 0) (present _ rfl) ds)
  · obtain ⟨f, took, next⟩ := present _ rfl
    change Option.Rel Q ((takeChar text s 0x2A).bind some) ((vaArg args).map _)
    rw [took, Option.bind_fun_some]
    change Option.Rel Q (((vaArg args).map _).map f) _
    rcases vaArg args with _ | ⟨w, rest⟩
    · exact .none
    · exact .some (weaken _ _ (next _))

end Amounts

theorem read_width (width : Amount) (leading : width.show.head? ≠ some 0x30)
    (inside : Inside s marking marks 0 0 out args) :
    Option.Rel (fun s' read => Inside s' widening marks read.1 0 out read.2)
      (width.show.foldlM (takeChar text) s) (width.read args) := by
  have wider : marking ⊆ widening := by decide
  have last : [State.width] ⊆ widening := by decide
  have one (t : Machine) (n : Int) (within : Inside t widening marks n 0 out args) (c : UInt8)
      (next : t.param.state.next c = .width) :
      Takes text args (fun s' read => Inside s' [.width] marks read.1 0 out read.2) t n c := by
    refine ⟨fun read => { t with
      param := { moved t .width with width := read.1 }, args := read.2 }, ?_, ?_⟩
    · rw [take_width next, within.width, within.args]
    · exact fun read => ⟨List.mem_cons_self, within.sent, within.count, rfl, within.length,
        within.prefixlen, rfl, within.prec, within.flags, within.pad⟩
  have start : Inside s widening marks 0 0 out args := { inside with state := wider inside.state }
  refine read_amount (P := fun s' read => Inside s' [.width] marks read.1 0 out read.2) ?_ ?_
    width (fun _ => start) ?_
  · intro t n d within
    have wide := last within.state
    exact one t n { within with state := wide } _
      (next_digit wide (.inl (List.mem_singleton.mp within.state)))
  · exact fun t read within => { within with state := last within.state }
  · rintro c first
    rcases width with (_ | ⟨d, ds⟩) | _
    · cases first
    · cases first
      have nonzero : d ≠ 0 := by
        rintro rfl
        exact leading rfl
      exact one s 0 start _ (next_digit start.state (.inr nonzero))
    · cases first
      exact one s 0 start _ (next_star inside.state)

theorem read_prec (prec : Option Amount) (inside : Inside s widening marks width 0 out args) :
    Option.Rel (fun s' read => Inside s' limiting marks width read.1 out read.2)
      ((prec.elim [] fun prec => 0x2E :: prec.show).foldlM (takeChar text) s)
      (prec.elim (some (0, args)) (Amount.read args)) := by
  rcases prec with _ | prec
  · have wider : widening ⊆ limiting := by decide
    exact .some { inside with state := wider inside.state }
  have dotted : Inside { s with param := moved s .dot } [.dot, .precis] marks width 0 out args :=
    { inside with state := List.mem_cons_self }
  have last : [State.dot, .precis] ⊆ limiting := by decide
  have one (t : Machine) (n : Int) (within : Inside t [.dot, .precis] marks width n out args)
      (c : UInt8) (next : t.param.state.next c = .precis) :
      Takes text args (fun s' read => Inside s' [.dot, .precis] marks width read.1 out read.2)
        t n c := by
    refine ⟨fun read => { t with
      param := { moved t .precis with prec := read.1 }, args := read.2 }, ?_, ?_⟩
    · rw [take_precis next, within.prec, within.args]
    · exact fun read => ⟨List.mem_cons_of_mem _ List.mem_cons_self, within.sent, within.count, rfl,
        within.length, within.prefixlen, within.width, rfl, within.flags, within.pad⟩
  have digit (t : Machine) (n : Int) (d : Fin 10)
      (within : Inside t [.dot, .precis] marks width n out args) :
      t.param.state.next (digitChar d) = .precis :=
    next_prec (by simpa using within.state) d
  change Option.Rel _ ((takeChar text s 0x2E).bind _) (Amount.read args prec)
  rw [take_dot (next_dot inside.state)]
  refine read_amount (P := fun s' read => Inside s' [.dot, .precis] marks width read.1 out read.2)
    (fun t n d within => one t n within _ (digit t n d within))
    (fun t read within => { within with state := last within.state }) prec
    (fun _ => { dotted with state := last dotted.state }) ?_
  rintro c first
  rcases prec with (_ | ⟨d, ds⟩) | _
  · cases first
  · cases first
    exact one _ 0 dotted _ (digit _ 0 d dotted)
  · cases first
    exact one _ 0 dotted _ (show State.next .dot 0x2A = .precis by decide)

variable (text) in
theorem read_sizes (sizes : List Size) (inside : Inside s sizing marks width prec out args) :
    ∃ s', (sizes.map Size.char).foldlM (takeChar text) s = some s' ∧
      Inside s' sizing marks width prec out args := by
  induction sizes generalizing s with
  | nil => exact ⟨s, rfl, inside⟩
  | cons size sizes ih =>
    obtain ⟨type, flags⟩ := inside.flags
    have sized : ∃ type, readSize s.param.flags size.char = flagsOf type marks := by
      rw [flags]
      cases size
      · exact ⟨type, rfl⟩
      · exact ⟨.long, rfl⟩
      · exact ⟨.sizeof, rfl⟩
    have here : State.size ∈ sizing := by decide
    obtain ⟨s', rest, done⟩ := ih (s := { s with param :=
      { moved s .size with flags := readSize s.param.flags size.char } })
      ⟨here, inside.sent, inside.count, inside.args, inside.length, inside.prefixlen,
        inside.width, inside.prec, sized, inside.pad⟩
    refine ⟨s', ?_, done⟩
    rw [List.map_cons, List.foldlM_cons, take_size (next_size inside.state size)]
    exact rest

/-- The parameters of an integer once its type is read. -/
structure Typed (p : Param) (radix : Radix) (marks : List Mark) (width prec : Int) : Prop where
  flags : ∃ type, p.flags = ⟨type, .left ∈ marks, .blank ∈ marks, .sharp ∈ marks, .plus ∈ marks,
    radix.upper, radix.isSigned, true, false⟩
  base : p.radix = radix.base
  length : p.length = 0
  width : p.width = width
  prec : p.prec = if radix.pointer then 8 else prec
  pad : p.pad = padOf marks
  lead : [p.prefix0, p.prefix1].take p.prefixlen = radix.lead (.sharp ∈ marks)
  prefixlen : p.prefixlen = (radix.lead (.sharp ∈ marks)).length

variable (text) in
theorem readType_integer (radix : Radix) (inside : Inside s states marks width prec out args) :
    ∃ p, readType text (moved s .type) radix.char args = some (p, args) ∧
      Typed p radix marks width prec ∧ p.count = s.param.count ∧ p.state = .type := by
  obtain ⟨⟨lvalue, out', length, prec', width', count, flags, prefixlen, prefix0, prefix1, radix',
    pad, state⟩, args', sent⟩ := s
  obtain ⟨-, -, -, -, rfl, rfl, rfl, rfl, ⟨type, rfl⟩, rfl⟩ := inside
  obtain ⟨type', known⟩ : ∃ type', type' = if radix.pointer then ArgType.sizeof else type := ⟨_, rfl⟩
  by_cases sharp : Mark.sharp ∈ marks
  all_goals
    cases radix <;>
    refine ⟨_, rfl, ⟨⟨type', ?_⟩, ?_, ?_, ?_, ?_, ?_, ?_, ?_⟩, ?_, ?_⟩ <;>
    simp [known, withPrefix, setInteger, setUpper, moved, flagsOf, sharp, Radix.base, Radix.pointer,
      Radix.isSigned, Radix.upper, Radix.lead]

/-- The parameters when the sign of an integer is managed. -/
def argument (p : Param) (w : UInt32) : Param :=
  { p with
    prec := if p.prec = 0 then 1 else p.prec
    lvalue := w
    prefixlen := if p.flags.prefixed ∧ w = 0 then 0 else p.prefixlen }

/-- The parameters when the integer is made. -/
def converted (p : Param) : Option Param :=
  (ulong2a p.radix bufferSize p.prec p.lvalue []).bind fun digits =>
    addSign { p with out := digits, length := p.length + digits.length }

theorem processInteger_eq (p : Param) (args : List UInt32) : processInteger p args =
    (vaArg args).bind fun (w, args) =>
      (converted (manageSign (argument p w))).map fun p => (p, args) := by
  unfold processInteger converted
  rcases vaArg args with _ | ⟨w, args⟩
  · rfl
  · simp only [Option.bind_some, Option.map_bind, argument]
    by_cases unset : p.prec = 0 <;> by_cases bare : p.flags.prefixed = true ∧ w = 0 <;>
      simp only [unset, bare, if_true, if_false] <;> rfl

theorem manageSign_eq {p : Param} (fresh : p.flags.minus = false) : manageSign p =
    { p with
      lvalue := if p.flags.decimal ∧ signed p.lvalue < 0 then ~~~p.lvalue + 1 else p.lvalue
      flags := { p.flags with minus := p.flags.decimal ∧ signed p.lvalue < 0 }
      prefix0 := if p.flags.decimal ∧ ¬ signed p.lvalue < 0 ∧ p.flags.blank then 0x20 else p.prefix0
      prefixlen := if p.flags.decimal ∧ ¬ signed p.lvalue < 0 ∧ p.flags.blank then 1
        else p.prefixlen } := by
  obtain ⟨lvalue, out, length, prec, width, count, ⟨type, left, blank, sharp, plus, upper, decimal,
    integer, minus⟩, prefixlen, prefix0, prefix1, radix, pad, state⟩ := p
  obtain rfl : minus = false := fresh
  unfold manageSign
  cases decimal
  · simp
  · by_cases negative : signed lvalue < 0
    · simp [negative]
    · cases blank <;> simp [negative]

theorem minus_toNat {w : UInt32} (negative : signed w < 0) :
    (~~~w + 1).toNat = 4294967296 - w.toNat := by
  have small := w.toNat_lt
  have large : ¬ w.toNat < 2147483648 := by
    intro small
    rw [signed, if_pos small] at negative
    omega
  rw [UInt32.toNat_add, UInt32.toNat_not, UInt32.toNat_one, UInt32.size]
  omega

theorem lead_short (radix : Radix) (sharp : Bool) : (radix.lead sharp).length ≤ 2 := by
  cases radix <;> cases sharp <;> decide

/-- The parameters of an integer once its sign is managed. -/
structure Managed (p : Param) (radix : Radix) (marks : List Mark) (width prec : Int) (w : UInt32) :
    Prop where
  base : p.radix = radix.base
  length : p.length = 0
  width : p.width = width
  prec : p.prec = radix.least prec
  value : p.lvalue.toNat = radix.magnitude w
  pad : p.pad = padOf marks
  left : p.flags.left = decide (.left ∈ marks)
  upper : p.flags.upper = radix.upper
  plus : p.flags.plus = decide (.plus ∈ marks)
  minus : p.flags.minus = radix.negative w
  front : [p.prefix0, p.prefix1].take p.prefixlen = radix.front marks w
  prefixlen : p.prefixlen = (radix.front marks w).length

variable {p : Param} {radix : Radix}

theorem managed (typed : Typed p radix marks width prec) (w : UInt32) :
    Managed (manageSign (argument p w)) radix marks width prec w := by
  obtain ⟨type, flags⟩ := typed.flags
  have known : (argument p w).flags = p.flags := rfl
  rw [flags] at known
  have value : (argument p w).lvalue = w := rfl
  have negative : (radix.isSigned = true ∧ signed w < 0) ↔ radix.negative w = true := by
    simp [Radix.negative]
  have blank : (radix.isSigned = true ∧ ¬ signed w < 0 ∧ decide (Mark.blank ∈ marks) = true) ↔
      (radix.isSigned = true ∧ ¬ radix.negative w = true ∧ Mark.blank ∈ marks) := by
    rw [← negative, decide_eq_true_eq]
    grind
  have bare : (p.flags.prefixed = true ∧ w = 0) ↔ (Mark.sharp ∈ marks ∧ w = 0) := by
    rw [flags, decide_eq_true_eq]
  have front : [if radix.isSigned ∧ ¬ radix.negative w ∧ .blank ∈ marks then 0x20 else p.prefix0,
      p.prefix1].take (if radix.isSigned ∧ ¬ radix.negative w ∧ .blank ∈ marks then 1
        else (argument p w).prefixlen) = radix.front marks w ∧
      (if radix.isSigned ∧ ¬ radix.negative w ∧ .blank ∈ marks then 1
        else (argument p w).prefixlen) = (radix.front marks w).length := by
    rw [Radix.front, argument]
    simp only [bare]
    by_cases spaced : radix.isSigned = true ∧ ¬ radix.negative w = true ∧ Mark.blank ∈ marks
    · simp only [if_pos spaced]
      exact ⟨rfl, rfl⟩
    · simp only [if_neg spaced]
      by_cases none : Mark.sharp ∈ marks ∧ w = 0
      · simp only [if_pos none]
        exact ⟨rfl, rfl⟩
      · simp only [if_neg none]
        exact ⟨typed.lead, typed.prefixlen⟩
  rw [manageSign_eq (by rw [known]), known, value]
  simp only [negative, blank]
  refine ⟨typed.base, typed.length, typed.width, ?_, ?_, typed.pad, rfl, rfl, rfl, ?_, ?_, ?_⟩
  · show (if p.prec = 0 then 1 else p.prec) = radix.least prec
    rw [typed.prec, Radix.least]
    cases radix.pointer <;> simp
  · show (if radix.negative w = true then ~~~w + 1 else w).toNat = radix.magnitude w
    rw [Radix.magnitude]
    by_cases minus : radix.negative w = true
    · rw [if_pos minus, if_pos minus, minus_toNat (negative.mpr minus).2]
    · rw [if_neg minus, if_neg minus]
  · simp
  · exact front.1
  · exact front.2

theorem field_eq {lead body : CStr}
    (front : [p.prefix0, p.prefix1].take p.prefixlen = lead) (frontlen : p.prefixlen = lead.length)
    (back : p.out.take p.length.toNat = body) (backlen : p.length = body.length)
    (pad : p.pad = padOf marks) (left : p.flags.left = decide (.left ∈ marks)) :
    field p = lay marks p.width p.flags.upper lead body := by
  have short : outBuffer [p.prefix0, p.prefix1] p.prefixlen p.flags.upper =
      toUpper p.flags.upper lead := by
    rw [outBuffer, Int.toNat_natCast, front]
    rfl
  have text : outBuffer p.out p.length p.flags.upper = toUpper p.flags.upper body := by
    rw [outBuffer, back]
    rfl
  unfold field lay outChars
  rw [short, text, left, backlen, frontlen, pad]
  by_cases behind : Mark.left ∈ marks
  · simp only [behind, decide_true, if_true, List.nil_append]
    rfl
  · simp only [behind, decide_false, if_false, List.append_nil, Bool.false_eq_true]
    rfl

theorem pad_zero : padOf marks = 0x30 ↔ Mark.zero ∈ marks := by
  unfold padOf
  by_cases zero : Mark.zero ∈ marks <;> simp [zero]

theorem addSign_eq {w : UInt32} (minus : p.flags.minus = radix.negative w)
    (plus : p.flags.plus = decide (.plus ∈ marks)) : addSign p = match radix.sign marks w with
      | none => some p
      | some c =>
        if p.pad = 0x30 then some { p with prefixlen := 1, prefix0 := c }
        else if p.out.length < bufferSize then
          some { p with out := c :: p.out, length := p.length + 1 }
        else none := by
  unfold addSign Radix.sign
  rw [minus, plus]
  by_cases negative : radix.negative w = true
  · simp [negative]
  · by_cases plus : Mark.plus ∈ marks <;> simp [negative, plus]

theorem converted_eq {w : UInt32} (managed : Managed p radix marks width prec w) :
    (converted p).bind field = printInteger marks width prec radix w := by
  have digits : numeral radix.base p.prec.toNat p.lvalue.toNat = radix.digits prec w := by
    rw [managed.prec, managed.value, Radix.digits]
  unfold converted printInteger
  rw [managed.base, ulong2a_eq, digits, managed.prec, managed.length]
  dsimp only
  by_cases full : radix.least prec - (radix.digits prec w).length ≤ intMin ∨
      bufferSize < (radix.digits prec w).length
  · rw [if_pos full, if_pos full]
    rfl
  have sign := addSign_eq (p := { p with
    out := radix.digits prec w
    length := (radix.digits prec w).length
    prec := radix.least prec
    radix := radix.base }) managed.minus managed.plus
  rw [if_neg full, if_neg full, Option.bind_some, List.append_nil, Int.zero_add, sign,
    ← managed.width, ← managed.upper]
  rcases radix.sign marks w with _ | c
  · exact field_eq managed.front managed.prefixlen (List.take_length ..) rfl managed.pad
      managed.left
  dsimp only
  by_cases zero : Mark.zero ∈ marks
  · rw [if_pos (managed.pad.trans (pad_zero.mpr zero)), if_pos zero]
    exact field_eq rfl rfl (List.take_length ..) rfl managed.pad managed.left
  · rw [if_neg fun same => zero (pad_zero.mp (managed.pad.symm.trans same)), if_neg zero]
    by_cases room : (radix.digits prec w).length < bufferSize
    · rw [if_pos room, if_pos room]
      have whole : (c :: radix.digits prec w).length ≤
          (((radix.digits prec w).length : Int) + 1).toNat := by
        rw [List.length_cons]
        omega
      exact field_eq managed.front managed.prefixlen (List.take_of_length_le whole) (by simp)
        managed.pad managed.left
    · rw [if_neg room, if_neg room]
      rfl

theorem cutOff_eq (prefixlen : p.prefixlen = 0) (length : p.length = p.out.length)
    (pad : p.pad = padOf marks) (left : p.flags.left = decide (.left ∈ marks))
    (least : intMin ≤ p.width) :
    field (cutOff p) = printText marks p.width p.flags.upper p.out := by
  unfold cutOff printText
  rw [length]
  by_cases cut : p.width ≠ 0 ∧ (p.out.length : Int) > p.width
  · rw [if_pos cut, if_pos cut]
    by_cases positive : 0 < p.width
    · exact field_eq (by rw [prefixlen]; rfl) prefixlen rfl
        (by rw [List.length_take]; dsimp only; omega) pad left
    · have nothing : p.width.toNat = 0 := by omega
      unfold field lay outChars outBuffer toUpper
      simp [prefixlen, nothing, Int.not_lt.mpr least]
      decide
  · rw [if_neg cut, if_neg cut]
    exact field_eq (by rw [prefixlen]; rfl) prefixlen
      (by rw [length, Int.toNat_natCast, List.take_length]) length pad left

theorem signed_small {n : Nat} (small : n < 2147483648) : signed (.ofNat n) = n := by
  have value : (UInt32.ofNat n).toNat = n := by
    rw [UInt32.toNat_ofNat']
    omega
  rw [signed, value, if_pos small]

/-- The parameters of a text. -/
def withText (text : UInt32 → CStr) (p : Param) (kind : Kind) (w : UInt32) : Param :=
  { p with
    flags := { p.flags with upper := p.flags.upper || kind.upper }
    out := kind.body text w
    length := (kind.body text w).length }

theorem readType_text (short : ∀ w, (text w).length < 2147483648) {kind : Kind}
    (other : ∀ radix, kind ≠ .integer radix) (p : Param) (args : List UInt32) :
    readType text p kind.char args =
      (vaArg args).map fun (w, args) => (withText text p kind w, args) := by
  have string (w : UInt32) : signed (.ofNat (if w = 0 then msNull else text w).length) =
      (if w = 0 then msNull else text w).length := by
    apply signed_small
    by_cases null : w = 0
    · rw [if_pos null]
      decide
    · rw [if_neg null]
      exact short w
  rcases args with _ | ⟨w, args⟩
  · rcases kind with radix | _ | _ | _ | _ | _
    · exact absurd rfl (other radix)
    all_goals rfl
  · rcases kind with radix | _ | _ | _ | _ | _
    · exact absurd rfl (other radix)
    all_goals simp [readType, Kind.char, Kind.upper, Kind.body, setUpper, vaArg, string, withText]

theorem sent_outside (state : p.state = .normal ∨ p.state = .type)
    (count : p.count = .ofNat out.length) (cs : CStr) :
    Outside (Machine.send ⟨p, args, out⟩ cs) (out ++ cs) args where
  state := state
  sent := rfl
  count := by
    show p.count + .ofNat cs.length = _
    rw [count, List.length_append, UInt32.ofNat_add]
  args := rfl

theorem converted_keeps {q : Param} (made : converted p = some q) :
    q.count = p.count ∧ q.state = p.state := by
  unfold converted at made
  obtain ⟨digits, -, signed⟩ := Option.bind_eq_some_iff.mp made
  unfold addSign at signed
  dsimp only at signed
  split at signed
  · split at signed
    · cases signed
      exact ⟨rfl, rfl⟩
    · split at signed
      · cases signed
        exact ⟨rfl, rfl⟩
      · cases signed
  · cases signed
    exact ⟨rfl, rfl⟩

theorem manageSign_keeps (p : Param) :
    (manageSign p).count = p.count ∧ (manageSign p).state = p.state := by
  unfold manageSign
  dsimp only
  split <;> [split <;> split; skip] <;> exact ⟨rfl, rfl⟩

theorem read_integer (radix : Radix) (inside : Inside s sizing marks width prec out args) :
    Option.Rel (fun s' (read : CStr × List UInt32) => Outside s' (out ++ read.1) read.2)
      (takeChar text s radix.char)
      ((vaArg args).bind fun (w, args) =>
        (printInteger marks width prec radix w).map fun cs => (cs, args)) := by
  obtain ⟨p, read, typed, count, state⟩ := readType_integer text radix inside
  obtain ⟨type, flags⟩ := typed.flags
  have integer : p.flags.integer = true := by rw [flags]
  have next : s.param.state.next radix.char = .type := next_kind inside.state (.integer radix)
  rw [take_type next, inside.args, read, Option.bind_some]
  dsimp only
  rw [if_pos integer, processInteger_eq]
  rcases vaArg args with _ | ⟨w, rest⟩
  · exact .none
  have printed := converted_eq (managed typed w)
  simp only [Option.bind_some, ← printed]
  rcases made : converted (manageSign (argument p w)) with _ | q
  · exact .none
  obtain ⟨counted, ready⟩ := converted_keeps made
  obtain ⟨counted', ready'⟩ := manageSign_keeps (argument p w)
  simp only [Option.map_some, Option.bind_some, inside.sent]
  rcases field q with _ | cs
  · exact .none
  · refine .some (sent_outside ?_ ?_ cs)
    · rw [ready, ready']
      exact .inr state
    · rw [counted, counted', ← inside.count, ← count]
      rfl

theorem cutOff_keeps (p : Param) : (cutOff p).count = p.count ∧ (cutOff p).state = p.state := by
  unfold cutOff
  split <;> exact ⟨rfl, rfl⟩

theorem read_text (short : ∀ w, (text w).length < 2147483648) {kind : Kind}
    (other : ∀ radix, kind ≠ .integer radix) (inside : Inside s sizing marks width prec out args)
    (least : intMin ≤ width) :
    Option.Rel (fun s' (read : CStr × List UInt32) => Outside s' (out ++ read.1) read.2)
      (takeChar text s kind.char)
      ((vaArg args).bind fun (w, args) =>
        (printText marks width kind.upper (kind.body text w)).map fun cs => (cs, args)) := by
  obtain ⟨type, flags⟩ := inside.flags
  rw [take_type (next_kind inside.state kind), inside.args, readType_text short other]
  rcases vaArg args with _ | ⟨w, rest⟩
  · exact .none
  have integer : (withText text (moved s .type) kind w).flags.integer = false := by
    show s.param.flags.integer = false
    rw [flags]
    rfl
  have upper : (withText text (moved s .type) kind w).flags.upper = kind.upper := by
    show (s.param.flags.upper || kind.upper) = kind.upper
    rw [flags]
    exact Bool.false_or _
  have printed := cutOff_eq (p := withText text (moved s .type) kind w) inside.prefixlen rfl
    inside.pad (by show s.param.flags.left = _; rw [flags]; rfl)
    (by show intMin ≤ s.param.width; rwa [inside.width])
  rw [upper, show (withText text (moved s .type) kind w).width = width from inside.width,
    show (withText text (moved s .type) kind w).out = kind.body text w from rfl] at printed
  obtain ⟨counted, ready⟩ := cutOff_keeps (withText text (moved s .type) kind w)
  simp only [Option.map_some, Option.bind_some, integer, Bool.false_eq_true, if_false, ← printed,
    inside.sent]
  rcases field (cutOff (withText text (moved s .type) kind w)) with _ | cs
  · exact .none
  · exact .some (sent_outside (.inr ready) (counted.trans inside.count) cs)

theorem read_kind (short : ∀ w, (text w).length < 2147483648) (kind : Kind)
    (inside : Inside s sizing marks width prec out args) (least : intMin ≤ width) :
    Option.Rel (fun s' (read : CStr × List UInt32) => Outside s' (out ++ read.1) read.2)
      (takeChar text s kind.char)
      ((vaArg args).bind fun (w, args) =>
        (printValue text marks width prec w kind).map fun cs => (cs, args)) := by
  rcases kind with radix | _ | _ | _ | _ | _
  · exact read_integer radix inside
  all_goals exact read_text short (fun _ same => by cases same) inside least

theorem read_least {amount : Amount} {n : Int} {rest : List UInt32}
    (read : amount.read args = some (n, rest)) : intMin ≤ n := by
  rcases amount with ds | _
  · simp only [Amount.read] at read
    split at read
    · cases read
      exact Int.le_trans (by decide) (Int.natCast_nonneg _)
    · cases read
  · obtain ⟨⟨w, rest⟩, -, same⟩ := Option.map_eq_some_iff.mp read
    cases same
    unfold signed intMin
    split <;> omega

theorem read_field (short : ∀ w, (text w).length < 2147483648) (f : Field)
    (outside : Outside s out args) :
    Option.Rel (fun s' (read : CStr × List UInt32) => Outside s' (out ++ read.1) read.2)
      (f.show.foldlM (takeChar text) s) (f.print text args) := by
  obtain ⟨s1, opened, inside1⟩ := open_field text outside
  obtain ⟨s2, marked, inside2⟩ := read_marks text f.marks inside1
  rw [Field.show, List.foldlM_cons, opened]
  simp only [Option.bind_eq_bind, Option.bind_some, List.foldlM_append]
  rw [marked, Option.bind_some, Field.print]
  refine rel_bind (read_width f.width f.leading inside2) ?_
  rintro s3 ⟨width, args⟩ widthRead inside3
  refine rel_bind (read_prec f.prec inside3) ?_
  rintro s4 ⟨prec, args⟩ - inside4
  have wider : limiting ⊆ sizing := by decide
  obtain ⟨s5, sized, inside5⟩ := read_sizes text f.sizes
    { inside4 with state := wider inside4.state }
  rw [sized, Option.bind_some]
  change Option.Rel _ ((takeChar text s5 f.kind.char).bind some) _
  rw [Option.bind_fun_some]
  exact read_kind short f.kind inside5 (read_least widthRead)

theorem read_item (short : ∀ w, (text w).length < 2147483648) (item : Item)
    (outside : Outside s out args) :
    Option.Rel (fun s' (read : CStr × List UInt32) => Outside s' (out ++ read.1) read.2)
      (item.show.foldlM (takeChar text) s) (item.print text args) := by
  rcases item with ⟨c, plain⟩ | _ | f
  · change Option.Rel _ ((takeChar text s c).bind some) (some ([c], args))
    rw [take_normal (next_plain plain outside.state), Option.bind_some, outside.args, outside.sent]
    exact .some (sent_outside (p := moved s .normal) (.inl rfl) outside.count [c])
  · change Option.Rel _ ((takeChar text s 0x25).bind fun s => (takeChar text s 0x25).bind some)
      (some ([0x25], args))
    have normal : State.next .percent 0x25 = .normal := by decide
    rw [take_percent (next_percent outside.state), Option.bind_some, take_normal normal,
      Option.bind_some, outside.args, outside.sent]
    refine .some (sent_outside (.inl rfl) ?_ [0x25])
    exact outside.count
  · exact read_field short f outside

theorem read_items (short : ∀ w, (text w).length < 2147483648) (items : List Item)
    (outside : Outside s out args) :
    Option.Rel (fun s' (printed : CStr) => s'.sent = out ++ printed ∧
        s'.param.count = .ofNat (out ++ printed).length)
      ((items.flatMap Item.show).foldlM (takeChar text) s) (printItems text items args) := by
  induction items generalizing s out args with
  | nil =>
    refine .some ⟨?_, ?_⟩
    · rw [List.append_nil, outside.sent]
    · rw [List.append_nil, outside.count]
  | cons item items ih =>
    rw [List.flatMap_cons, List.foldlM_append, printItems]
    refine rel_bind (read_item short item outside) ?_
    rintro s' ⟨cs, args⟩ - next
    refine rel_map (fun t printed done => ?_) (ih next)
    rwa [← List.append_assoc]

/-- xvformat sends what the format prints, and counts it. -/
theorem xvformat_prints (short : ∀ w, (text w).length < 2147483648) (p : Param)
    (items : List Item) (args : List UInt32) :
    xvformat text p (items.flatMap Item.show) args =
      (printItems text items args).map fun cs => (cs, .ofNat cs.length) := by
  refine map_eq_of_rel ?_ (read_items short items ⟨.inl rfl, rfl, rfl, rfl⟩)
  rintro s cs ⟨sent, count⟩
  exact Prod.ext sent count

def noParam : Param := ⟨0, [], 0, 0, 0, 0, noFlags, 0, 0, 0, 0, 0, .normal⟩

/-- `%-6s|0x%08x%%` with `app1` and 0x20000: eighteen characters. -/
theorem row_prints : xvformat (fun _ => [0x61, 0x70, 0x70, 0x31]) noParam
    [0x25, 0x2D, 0x36, 0x73, 0x7C, 0x30, 0x78, 0x25, 0x30, 0x38, 0x78, 0x25, 0x25] [1, 0x20000] =
      some ([0x61, 0x70, 0x70, 0x31, 0x20, 0x20, 0x7C, 0x30, 0x78, 0x30, 0x30, 0x30, 0x32, 0x30,
        0x30, 0x30, 0x30, 0x25], 18) :=
  (xvformat_prints (fun _ => by decide) noParam
    [.field ⟨[.left], .digits [6], by decide, none, [], .s⟩, .char 0x7C (by decide),
      .char 0x30 (by decide), .char 0x78 (by decide),
      .field ⟨[.zero], .digits [8], by decide, none, [], .integer .x⟩, .percent]
    [1, 0x20000]).trans (by decide +kernel)

end T113Boot.Shell.Printing
