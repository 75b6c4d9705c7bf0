/- Module: T113Boot/Ymodem/Header
   layer: specification
   digest: The first packets that are taken for a header, and what they announce. -/

import T113Boot.Ymodem.Replay
import T113Boot.Ymodem.Termination

set_option autoImplicit false
set_option relaxedAutoImplicit false

namespace T113Boot.Ymodem.Header

open T113Boot.Lib.Stoppable
open Prog
open T113Boot.Ymodem.Receive
open T113Boot.Ymodem.Wire
open T113Boot.Ymodem.Sender
open T113Boot.Ymodem.LossFree
open T113Boot.Ymodem.CallbackProtocol
open T113Boot.Ymodem.Replay
open T113Boot.Ymodem.Termination (afterFirst)

/-! Numbers as `ymodem_strtol` reads them. -/

/-- The number that decimal digits stand for. -/
def decimalValue (digits : List UInt8) : Nat :=
  digits.foldl (fun value c => value * 10 + (c.toNat - 48)) 0

def signed (sign : List UInt8) (value : Nat) : Int := if sign = [0x2D] then -value else value

/-- Blanks and tabs, at most one sign, digits, and anything behind them. -/
def Numeral (str sign digits : List UInt8) : Prop := ∃ blanks junk,
  str = blanks ++ (sign ++ (digits ++ junk)) ∧ (∀ c ∈ blanks, c = 0x20 ∨ c = 0x09) ∧
  (sign = [] ∨ sign = [0x2D] ∨ sign = [0x2B]) ∧ digits ≠ [] ∧ (∀ c ∈ digits, isDigit c = true) ∧
  ∀ c ∈ junk.head?, isDigit c = false

/-- The field of the size: up to the first blank behind the name. -/
def SizeField (tail sign digits : List UInt8) : Prop := ∃ field more,
  tail = field ++ 0x20 :: more ∧ 0x20 ∉ field ∧ Numeral field sign digits

private theorem fold_ge (digits : List UInt8) (init : Nat) :
    init ≤ digits.foldl (fun value c => value * 10 + (c.toNat - 48)) init := by
  induction digits generalizing init with
  | nil => exact Nat.le_refl _
  | cons c digits ih =>
    have later := ih (init * 10 + (c.toNat - 48))
    rw [List.foldl_cons]
    omega

private theorem digits_fold_fits (digits : List UInt8) (all : ∀ c ∈ digits, isDigit c = true)
    (init : Nat)
    (fits : digits.foldl (fun value c => value * 10 + (c.toNat - 48)) init < 2147483648) :
    digits.foldl (fun (result : Int) c => int32 (result * 10 + (c.toNat - 48 : Int))) (init : Int) =
      (digits.foldl (fun value c => value * 10 + (c.toNat - 48)) init : Nat) := by
  induction digits generalizing init with
  | nil => rfl
  | cons c digits ih =>
    have bounds := isDigit_bounds (all c List.mem_cons_self)
    have later := fold_ge digits (init * 10 + (c.toNat - 48))
    rw [List.foldl_cons] at fits ⊢
    rw [List.foldl_cons]
    have step : int32 ((init : Int) * 10 + (c.toNat - 48 : Int)) =
        ((init * 10 + (c.toNat - 48) : Nat) : Int) := by
      rw [← int32_small (Nat.lt_of_le_of_lt later fits)]
      congr 1
      omega
    rw [step]
    exact ih (fun d hd => all d (List.mem_cons_of_mem _ hd)) _ fits

theorem digitsValue_eq {digits : List UInt8} (all : ∀ c ∈ digits, isDigit c = true)
    (fits : decimalValue digits < 2147483648) : digitsValue digits = decimalValue digits :=
  digits_fold_fits digits all 0 fits

theorem blank_iff (c : UInt8) :
    (decide (c = 0x20) || decide (c = 0x09)) = true ↔ c = 0x20 ∨ c = 0x09 := by
  simp

theorem blanks_end {blanks rest : List UInt8} (all : ∀ c ∈ blanks, c = 0x20 ∨ c = 0x09)
    (other : ∀ c ∈ rest.head?, c ≠ 0x20 ∧ c ≠ 0x09) :
    (blanks ++ rest).dropWhile (fun c => c = 0x20 || c = 0x09) = rest := by
  rw [List.dropWhile_append_of_pos fun c member => (blank_iff c).mpr (all c member)]
  rcases rest with _ | ⟨c, rest⟩
  · rfl
  · obtain ⟨blank, tab⟩ := other c rfl
    rw [List.dropWhile_cons_of_neg]
    exact fun bad => ((blank_iff c).mp bad).elim blank tab

theorem digits_end {digits junk : List UInt8} (all : ∀ c ∈ digits, isDigit c = true)
    (ends : ∀ c ∈ junk.head?, isDigit c = false) : (digits ++ junk).takeWhile isDigit = digits := by
  rw [List.takeWhile_append_of_pos all]
  rcases junk with _ | ⟨c, junk⟩
  · rw [List.takeWhile_nil, List.append_nil]
  · rw [List.takeWhile_cons_of_neg (by simp [ends c rfl]), List.append_nil]

theorem numeral_head {sign digits : List UInt8} (junk : List UInt8)
    (form : sign = [] ∨ sign = [0x2D] ∨ sign = [0x2B]) (more : digits ≠ [])
    (all : ∀ c ∈ digits, isDigit c = true) :
    ∀ c ∈ (sign ++ (digits ++ junk)).head?, c ≠ 0x20 ∧ c ≠ 0x09 := by
  obtain ⟨d, digits, rfl⟩ := List.exists_cons_of_ne_nil more
  have bounds := isDigit_bounds (all d List.mem_cons_self)
  rcases form with rfl | rfl | rfl
  · rintro c ⟨⟩
    constructor <;> rintro rfl <;> revert bounds <;> decide
  · rintro c ⟨⟩
    decide
  · rintro c ⟨⟩
    decide

theorem sign_read {sign digits : List UInt8} (junk : List UInt8)
    (form : sign = [] ∨ sign = [0x2D] ∨ sign = [0x2B]) (more : digits ≠ [])
    (all : ∀ c ∈ digits, isDigit c = true) :
    ((sign ++ (digits ++ junk)).head? = some 0x2D ↔ sign = [0x2D]) ∧
    (if (sign ++ (digits ++ junk)).head? = some 0x2D ∨ (sign ++ (digits ++ junk)).head? = some 0x2B
      then (sign ++ (digits ++ junk)).tail else sign ++ (digits ++ junk)) = digits ++ junk := by
  obtain ⟨d, digits, rfl⟩ := List.exists_cons_of_ne_nil more
  have notSign : d ≠ 0x2D ∧ d ≠ 0x2B := by
    constructor <;> rintro rfl <;> exact absurd (all _ List.mem_cons_self) (by decide)
  rcases form with rfl | rfl | rfl
  · have other {b : UInt8} (h : d ≠ b) : ([] ++ (d :: digits ++ junk)).head? ≠ some b :=
      fun same => h (Option.some_inj.mp same)
    exact ⟨iff_of_false (other notSign.1) (by decide),
      if_neg (not_or.mpr ⟨other notSign.1, other notSign.2⟩)⟩
  · exact ⟨iff_of_true rfl rfl, if_pos (.inl rfl)⟩
  · have plus : ([0x2B] ++ (d :: digits ++ junk)).head? = some 0x2B := rfl
    exact ⟨iff_of_false (by rw [plus]; decide) (by decide), if_pos (.inr rfl)⟩

theorem ymodemStrtol_numeral {str sign digits : List UInt8} (numeral : Numeral str sign digits)
    (fits : decimalValue digits < 2147483648) :
    ymodemStrtol str = .ok (signed sign (decimalValue digits)) := by
  obtain ⟨blanks, junk, rfl, blank, form, more, all, ends⟩ := numeral
  have dropped := blanks_end blank (numeral_head junk form more all)
  obtain ⟨minus, number⟩ := sign_read junk form more all
  have notEmpty : blanks ++ (sign ++ (digits ++ junk)) ≠ [] := by simp [more]
  unfold ymodemStrtol
  rw [if_neg notEmpty]
  simp only [dropped]
  rw [number, digits_end all ends, if_neg more, digitsValue_eq all fits, signed]
  simp only [minus]
  by_cases negative : sign = [0x2D]
  · rw [if_pos negative, if_pos negative, Int.mul_neg_one]
    exact congrArg Except.ok (Int.bmod_eq_of_le (by omega) (by omega))
  · rw [if_neg negative, if_neg negative, Int.mul_one, int32_small fits]

theorem sign_split (str : List UInt8) : ∃ sign,
    (sign = [] ∨ sign = [0x2D] ∨ sign = [0x2B]) ∧
    str = sign ++ if str.head? = some 0x2D ∨ str.head? = some 0x2B then str.tail else str := by
  rcases str with _ | ⟨c, rest⟩
  · exact ⟨[], .inl rfl, rfl⟩
  · by_cases minus : c = 0x2D
    · exact ⟨[0x2D], .inr (.inl rfl), by rw [minus, if_pos (.inl rfl)]; rfl⟩
    · by_cases plus : c = 0x2B
      · exact ⟨[0x2B], .inr (.inr rfl), by rw [plus, if_pos (.inr rfl)]; rfl⟩
      · exact ⟨[], .inl rfl, by rw [if_neg (by simp [minus, plus])]; rfl⟩

theorem numeral_of_ok {str : List UInt8} {n : Int} (ok : ymodemStrtol str = .ok n) :
    ∃ sign digits, Numeral str sign digits := by
  unfold ymodemStrtol at ok
  by_cases empty : str = []
  · rw [if_pos empty] at ok
    cases ok
  · rw [if_neg empty] at ok
    dsimp only at ok
    have cut := List.takeWhile_append_dropWhile (p := fun c => c = 0x20 || c = 0x09) (l := str)
    obtain ⟨sign, form, behind⟩ := sign_split (str.dropWhile fun c => c = 0x20 || c = 0x09)
    generalize (if (str.dropWhile fun c => c = 0x20 || c = 0x09).head? = some 0x2D ∨
      (str.dropWhile fun c => c = 0x20 || c = 0x09).head? = some 0x2B then
        (str.dropWhile fun c => c = 0x20 || c = 0x09).tail
      else str.dropWhile fun c => c = 0x20 || c = 0x09) = number at ok behind
    by_cases none : number.takeWhile isDigit = []
    · rw [if_pos none] at ok
      cases ok
    · refine ⟨sign, number.takeWhile isDigit, str.takeWhile (fun c => c = 0x20 || c = 0x09),
        number.dropWhile isDigit, ?_, fun c member => ?_, form, none, fun c member => ?_,
        fun c member => ?_⟩
      · rw [List.takeWhile_append_dropWhile, ← behind, cut]
      · have blank := List.mem_takeWhile_imp member
        exact (blank_iff c).mp blank
      · exact List.mem_takeWhile_imp member
      · have stopped := List.head?_dropWhile_not isDigit number
        rw [Option.mem_def] at member
        rw [member] at stopped
        simpa using stopped

private theorem findIdx?_absent {b : UInt8} {bs : List UInt8} (absent : b ∉ bs) :
    ∀ x ∈ bs, (x == b) = false := by
  intro x member
  rw [beq_eq_false_iff_ne]
  rintro rfl
  exact absent member

theorem fnameLen_named {name : List UInt8} (tail : List UInt8) (ends : 0x00 ∉ name) :
    fnameLen (name ++ 0x00 :: tail) = name.length + 1 := by
  rw [fnameLen, findIdx?_past _ (findIdx?_absent ends) rfl]

private theorem tail_named (name tail : List UInt8) :
    (name ++ 0x00 :: tail).drop (name.length + 1) = tail := by
  rw [List.append_cons]
  exact List.drop_left' (by simp)

theorem announced_field {name tail sign digits : List UInt8} (ends : 0x00 ∉ name)
    (field : SizeField tail sign digits) (fits : decimalValue digits < 2147483648) :
    announced (name ++ 0x00 :: tail) = .ok (signed sign (decimalValue digits)) := by
  obtain ⟨text, more, rfl, noBlank, numeral⟩ := field
  rw [announced, fsizeLen, fnameLen_named _ ends, tail_named,
    findIdx?_past _ (findIdx?_absent noBlank) rfl, Option.getD_some, List.take_left' rfl]
  exact ymodemStrtol_numeral numeral fits

theorem field_of_announced {name tail : List UInt8} {size : Int} (ends : 0x00 ∉ name)
    (ok : announced (name ++ 0x00 :: tail) = .ok size) :
    ∃ sign digits, SizeField tail sign digits := by
  rw [announced, fsizeLen, fnameLen_named _ ends, tail_named] at ok
  by_cases blank : 0x20 ∈ tail
  · obtain ⟨text, more, rfl, noBlank⟩ := List.eq_append_cons_of_mem blank
    rw [findIdx?_past _ (findIdx?_absent noBlank) rfl, Option.getD_some, List.take_left' rfl] at ok
    obtain ⟨sign, digits, numeral⟩ := numeral_of_ok ok
    exact ⟨sign, digits, text, more, rfl, noBlank, numeral⟩
  · rw [List.findIdx?_eq_none_iff.mpr (findIdx?_absent blank), Option.getD_none, List.take_zero,
      show ymodemStrtol [] = .error (-1) from rfl] at ok
    cases ok

variable {τ : Type}

/-- The heads that `ymodem_start` is called with. -/
def started (events : List YmodemEvent) : List YmodemHead :=
  events.filterMap fun
    | .start head => some head
    | _ => none

theorem started_append (t u : List YmodemEvent) : started (t ++ u) = started t ++ started u :=
  List.filterMap_append

theorem started_cons (head : YmodemHead) (t : List YmodemEvent) :
    started (.start head :: t) = head :: started t := rfl

def NoStart (event : YmodemEvent) : Prop := ∀ head, event ≠ .start head

private theorem started_none {events : List YmodemEvent} (none : ∀ event ∈ events, NoStart event) :
    started events = [] := by
  rw [started, List.filterMap_eq_nil_iff]
  intro event member
  cases event with
  | start head => exact absurd rfl (none _ member head)
  | putchar ch => rfl
  | recvData data => rfl
  | abort err => rfl
  | finish => rfl

private theorem started_quiet {events : List YmodemEvent} (quiet : callbacks events = []) :
    started events = [] := by
  apply started_none
  rintro event member head rfl
  have absent := List.filter_eq_nil_iff.mp quiet _ member
  exact absent rfl

theorem recvFirst_run (n : Nat) {s : Receiver τ} {bs : List UInt8} {rest : Input}
    (first : firstPacket n s.input = some (bs, rest)) :
    ∃ s', recvFirst n s = (some true, s') ∧ s'.client = s.client := by
  induction n generalizing s with
  | zero => cases first
  | succ n ih =>
    rw [firstPacket] at first
    rcases reading : reception ymodemMaxRetry s.input with _ | ⟨outcome, naks, left⟩
    · rw [reading] at first
      cases first
    · obtain ⟨s', got, received⟩ := ymodemReceivePacket_run ymodemMaxRetry
        { s with trace := s.trace ++ [.putchar ymodemC] } reading
      have turn : recvFirst (n + 1) s =
          (if outcome.code = 0 then pure true else recvFirst n) s' := by
        rw [recvFirst, bind_of_some (show ymodemPutchar ymodemC s = (some (), _) from rfl),
          bind_of_some got]
      rw [turn]
      by_cases packet : outcome.code = 0
      · rw [if_pos packet]
        exact ⟨s', rfl, received.client⟩
      · rw [if_neg packet]
        have later : firstPacket n s'.input = some (bs, rest) := by
          rw [received.input, ← first, reading]
          rcases outcome with bs | _ | _
          · exact absurd rfl packet
          · rfl
          · rfl
        obtain ⟨s'', run, client⟩ := ih later
        exact ⟨s'', run, client.trans received.client⟩

theorem recvFile_starts (cb : YmodemCallback τ) {f : YmodemHead → Prog τ Unit}
    (start : cb.ymodemStart = some f) (nameLen : Nat) (fileSize : Int) (s : Receiver τ) :
    ∃ later, (recvFile cb nameLen fileSize s).2.trace =
      s.trace ++ .start ⟨s.frame.buf, .ofNat nameLen, .ofInt fileSize⟩ :: later ∧
      started later = [] := by
  have sent (ch : UInt8) : NoStart (.putchar ch) := fun _ same => by cases same
  have delivered (d : YmodemData) : NoStart (.recvData d) := fun _ same => by cases same
  have aborted (err : Int) : NoStart (.abort err) := fun _ same => by cases same
  have finished : NoStart .finish := fun _ same => by cases same
  have later : Keeps (Emits NoStart)
      (inClient (f ⟨s.frame.buf, .ofNat nameLen, .ofInt fileSize⟩) >>= fun _ =>
        ymodemPutchar ymodemAck >>= fun _ => ymodemPutchar ymodemC >>= fun _ =>
        recvData cb fileSize.toNat 0 >>= fun ret =>
          if ret ≠ 0 then pure ret else recvClosing cb) :=
    emits_bind (fun _ => .of_trace rfl) fun _ => emits_bind (emits_putchar sent _) fun _ =>
      emits_bind (emits_putchar sent _) fun _ =>
        emits_bind (emits_data sent cb delivered aborted _ _) fun ret =>
          keeps_ite (emits_pure ret) (emits_closing sent cb aborted finished)
  obtain ⟨events, trace, none⟩ := later { s with
    frame := { s.frame with fileSize := fileSize }
    trace := s.trace ++ [.start ⟨s.frame.buf, .ofNat nameLen, .ofInt fileSize⟩] }
  refine ⟨events, ?_, started_none none⟩
  rw [List.append_assoc] at trace
  rw [← List.singleton_append, ← trace, recvFile, start]
  rfl

private theorem first_run (cb : YmodemCallback τ) {s : Receiver τ} {bs : List UInt8} {rest : Input}
    (first : firstPacket ymodemMaxRetry s.input = some (bs, rest)) : ∃ s₁ quiet,
    ymodemReceive true (some cb) s = afterFirst cb true s₁ ∧ s₁.frame.packet = bs ∧
    s₁.client = s.client ∧ s₁.trace = s.trace ++ quiet ∧ callbacks quiet = [] := by
  obtain ⟨s₁, got, client⟩ := recvFirst_run _ first
  obtain ⟨⟨quiet, trace, none⟩, reading⟩ := recvFirst_returns _ got
  obtain ⟨packet, -⟩ := Prod.mk.inj (Option.some.inj (first.symm.trans reading))
  have split : ymodemReceive true (some cb) = recvFirst ymodemMaxRetry >>= afterFirst cb := rfl
  exact ⟨s₁, quiet, by rw [split, bind_of_some got], packet.symm, client, trace, none⟩

theorem header_taken (cb : YmodemCallback τ) {f : YmodemHead → Prog τ Unit}
    (start : cb.ymodemStart = some f) {s : Receiver τ} {bs : List UInt8} {rest : Input} {size : Int}
    (first : firstPacket ymodemMaxRetry s.input = some (bs, rest))
    (known : announced bs = .ok size) :
    ∃ t stale, (ymodemReceive true (some cb) s).2.trace = s.trace ++ t ∧
      started t = [⟨bs ++ stale, .ofNat (fnameLen bs), .ofInt size⟩] := by
  obtain ⟨s₁, quiet, run, packet, -, trace, none⟩ := first_run cb first
  have file : afterFirst cb true s₁ = recvFile cb (fnameLen bs) size s₁ := by
    rw [afterFirst, if_neg Bool.noConfusion, bind_of_some (read_apply s₁), packet, known]
  obtain ⟨later, added, silent⟩ := recvFile_starts cb start (fnameLen bs) size s₁
  have buf := List.take_append_drop s₁.frame.pkgSize s₁.frame.buf
  rw [show s₁.frame.buf.take s₁.frame.pkgSize = bs from packet] at buf
  rw [← buf] at added
  refine ⟨quiet ++ .start ⟨bs ++ s₁.frame.buf.drop s₁.frame.pkgSize, .ofNat (fnameLen bs),
    .ofInt size⟩ :: later, s₁.frame.buf.drop s₁.frame.pkgSize, ?_, ?_⟩
  · rw [run, file, added, trace, List.append_assoc]
  · rw [started_append, started_quiet none, started_cons, silent, List.nil_append]

theorem header_refused (cb : YmodemCallback τ) {g : Int → Prog τ Unit}
    (abort : cb.ymodemAbort = some g) {s : Receiver τ} {bs : List UInt8} {rest : Input} {err : Int}
    (first : firstPacket ymodemMaxRetry s.input = some (bs, rest))
    (refused : announced bs = .error err) :
    ∃ t, (ymodemReceive true (some cb) s).2.trace = s.trace ++ t ∧
      started t = [] ∧ callbacks t = [.abort ymodemErrHeader] ∧
      ((g ymodemErrHeader s.client).1 = some () →
        (ymodemReceive true (some cb) s).1 = some ymodemErrHeader) := by
  obtain ⟨s₁, quiet, run, packet, client, trace, none⟩ := first_run cb first
  rw [← packet] at refused
  rw [run, ← client]
  have called : call (.abort ymodemErrHeader) (cb.ymodemAbort.map (· ymodemErrHeader)) s₁ =
      ((g ymodemErrHeader s₁.client).1, { s₁ with
        trace := s₁.trace ++ [.abort ymodemErrHeader]
        client := (g ymodemErrHeader s₁.client).2 }) := by
    rw [abort]
    rfl
  refine ⟨quiet ++ [.abort ymodemErrHeader], ?_, ?_, ?_, fun returns => ?_⟩
  · rw [afterFirst, if_neg Bool.noConfusion, bind_of_some (read_apply s₁), refused]
    dsimp only
    rw [bind_apply, called, ← List.append_assoc, ← trace]
    rcases (g ymodemErrHeader s₁.client).1 with _ | ⟨⟩ <;> rfl
  · rw [started_append, started_quiet none]
    rfl
  · rw [callbacks_append, none]
    rfl
  · rw [afterFirst, if_neg Bool.noConfusion, bind_of_some (read_apply s₁), refused]
    dsimp only
    rw [bind_apply, called, returns]
    rfl

theorem decimalValue_short {digits : List UInt8} (all : ∀ c ∈ digits, isDigit c = true)
    (short : digits.length ≤ 9) : decimalValue digits < 2147483648 := by
  have bound (digits : List UInt8) (all : ∀ c ∈ digits, isDigit c = true) (init : Nat) :
      digits.foldl (fun value c => value * 10 + (c.toNat - 48)) init <
        (init + 1) * 10 ^ digits.length := by
    induction digits generalizing init with
    | nil => simp
    | cons c digits ih =>
      have digit := isDigit_bounds (all c List.mem_cons_self)
      have step : init * 10 + (c.toNat - 48) + 1 ≤ (init + 1) * 10 := by omega
      calc digits.foldl (fun value c => value * 10 + (c.toNat - 48)) (init * 10 + (c.toNat - 48))
          < (init * 10 + (c.toNat - 48) + 1) * 10 ^ digits.length :=
            ih (fun d hd => all d (List.mem_cons_of_mem _ hd)) _
        _ ≤ (init + 1) * 10 * 10 ^ digits.length := Nat.mul_le_mul_right _ step
        _ = (init + 1) * 10 ^ (digits.length + 1) := by
            rw [Nat.mul_assoc, Nat.pow_succ, Nat.mul_comm 10]
  have small : 10 ^ digits.length ≤ 10 ^ 9 := Nat.pow_le_pow_right (by decide) short
  have below := bound digits all 0
  rw [Nat.zero_add, Nat.one_mul] at below
  exact Nat.lt_of_lt_of_le (Nat.lt_of_lt_of_le below small) (by decide)

theorem sizeField_short {field more : List UInt8} (noBlank : 0x20 ∉ field)
    (short : field.length ≤ 9) (sign digits : List UInt8)
    (numeral : SizeField (field ++ 0x20 :: more) sign digits) :
    decimalValue digits < 2147483648 := by
  obtain ⟨field', more', same, noBlank', blanks, junk, rfl, -, -, -, all, -⟩ := numeral
  have length := findIdx?_past (c := 0x20) more (findIdx?_absent noBlank) rfl
  rw [same, findIdx?_past more' (findIdx?_absent noBlank') rfl, Option.some_inj] at length
  simp only [List.length_append] at length
  exact decimalValue_short all (by omega)

/-- A header that is one already: `name`, its end, digits and a blank. -/
def WellFormed (packet name : List UInt8) (value : Nat) : Prop := ∃ digits more,
  packet = name ++ 0x00 :: (digits ++ 0x20 :: more) ∧ name ≠ [] ∧ 0x00 ∉ name ∧ digits ≠ [] ∧
  (∀ c ∈ digits, isDigit c = true) ∧ decimalValue digits = value ∧ value < 2147483648

/-- The header `a`, with `size` behind the name, in a block of 128 bytes. -/
def smallHeader (size : List UInt8) (short : size.length ≤ 126) : Block where
  number := 0
  format := .soh
  payload := [0x61, 0x00] ++ (size ++ List.replicate (126 - size.length) 0x00)
  sized := by
    simp only [List.length_append, List.length_cons, List.length_nil, List.length_replicate,
      Format.size]
    omega

theorem firstPacket_block (b : Block) :
    firstPacket ymodemMaxRetry (arriving b.wire) = some (b.payload, []) := by
  have reading := reception_block b (n := ymodemMaxRetry) (k := 0) (by decide) []
  rw [silence, List.replicate_zero, List.nil_append, List.append_nil] at reading
  rw [show ymodemMaxRetry = 99 + 1 from rfl, firstPacket, reading]

/-- A first packet with a terminated name is taken for a header exactly when its size field, as
far as `ymodem_strtol` looks at it, is a number. Name and size are then those of the packet. -/
theorem header_accepted_iff (cb : YmodemCallback τ) {f : YmodemHead → Prog τ Unit}
    {g : Int → Prog τ Unit} (start : cb.ymodemStart = some f) (abort : cb.ymodemAbort = some g)
    {s : Receiver τ} {name tail : List UInt8} {rest : Input} (ends : 0x00 ∉ name)
    (first : firstPacket ymodemMaxRetry s.input = some (name ++ 0x00 :: tail, rest))
    (fits : ∀ sign digits, SizeField tail sign digits → decimalValue digits < 2147483648) :
    ∃ t, (ymodemReceive true (some cb) s).2.trace = s.trace ++ t ∧
      (started t ≠ [] ↔ ∃ sign digits, SizeField tail sign digits) ∧
      (∀ sign digits, SizeField tail sign digits → ∃ stale, started t = [{
        fileName := name ++ 0x00 :: tail ++ stale
        nameLen := .ofNat (name.length + 1)
        fileSize := .ofInt (signed sign (decimalValue digits)) }]) ∧
      ((¬ ∃ sign digits, SizeField tail sign digits) →
        callbacks t = [.abort ymodemErrHeader] ∧
        ((g ymodemErrHeader s.client).1 = some () →
          (ymodemReceive true (some cb) s).1 = some ymodemErrHeader)) := by
  have length := fnameLen_named tail ends
  rcases size : announced (name ++ 0x00 :: tail) with err | size
  · obtain ⟨t, trace, none, calls, ret⟩ := header_refused cb abort first size
    have absent : ¬ ∃ sign digits, SizeField tail sign digits := by
      rintro ⟨sign, digits, field⟩
      rw [announced_field ends field (fits _ _ field)] at size
      cases size
    refine ⟨t, trace, iff_of_false (fun some => some none) absent, ?_, fun _ => ⟨calls, ret⟩⟩
    exact fun sign digits field => absurd ⟨sign, digits, field⟩ absent
  · obtain ⟨t, stale, trace, told⟩ := header_taken cb start first size
    have present := field_of_announced ends size
    refine ⟨t, trace, iff_of_true (by rw [told]; exact List.cons_ne_nil _ _) present, ?_, ?_⟩
    · intro sign digits field
      rw [announced_field ends field (fits _ _ field)] at size
      rw [told, length, ← Except.ok.inj size]
      exact ⟨stale, rfl⟩
    · exact fun absent => absurd present absent

/-- A size of `5x`. -/
def fiveJunk : Block := smallHeader [0x35, 0x78, 0x20] (by decide)

theorem header_accepted_five : ∃ t,
    (ymodemReceive true (some idle.table) (fresh (arriving fiveJunk.wire))).2.trace = [] ++ t ∧
    ∃ stale, started t = [⟨fiveJunk.payload ++ stale, 2, 5⟩] := by
  have payload : fiveJunk.payload =
      [0x61] ++ 0x00 :: ([0x35, 0x78] ++ 0x20 :: List.replicate 123 0x00) := by
    decide
  have first := firstPacket_block fiveJunk
  rw [payload] at first
  obtain ⟨t, trace, -, told, -⟩ := header_accepted_iff idle.table rfl rfl
    (s := fresh (arriving fiveJunk.wire)) (by decide) first
    (sizeField_short (by decide) (by decide))
  have number : Numeral [0x35, 0x78] [] [0x35] := by
    refine ⟨[], [0x78], rfl, List.forall_mem_nil _, .inl rfl, List.cons_ne_nil _ _,
      List.forall_mem_singleton.mpr rfl, ?_⟩
    intro c taken
    cases taken
    rfl
  obtain ⟨stale, told⟩ := told [] [0x35] ⟨[0x35, 0x78], _, rfl, by decide, number⟩
  rw [payload]
  exact ⟨t, trace, stale, told⟩

/-- A size of `+5`. -/
def plusFive : Block := smallHeader [0x2B, 0x35, 0x20] (by decide)

/-- `ymodem_strtol` reads a signed number, so a size with a sign in front is accepted. -/
theorem header_sign_accepted : ¬ ∀ b : Block, b.number = 0 →
    (started (ymodemReceive true (some idle.table) (fresh (arriving b.wire))).2.trace ≠ [] ↔
      ∃ name value, WellFormed b.payload name value) := by
  intro claimed
  have size : announced plusFive.payload = .ok 5 := by rfl
  obtain ⟨t, stale, trace, told⟩ := header_taken idle.table rfl
    (s := fresh (arriving plusFive.wire)) (firstPacket_block plusFive) size
  have taken : started (ymodemReceive true (some idle.table)
      (fresh (arriving plusFive.wire))).2.trace ≠ [] := by
    rw [trace, show (fresh _).trace = [] from rfl, List.nil_append, told]
    exact List.cons_ne_nil _ _
  obtain ⟨name, value, digits, more, packet, -, ends, some, all, -⟩ :=
    (claimed plusFive rfl).mp taken
  have length := fnameLen_named (digits ++ 0x20 :: more) ends
  have known : fnameLen plusFive.payload = 2 := by decide
  obtain ⟨d, digits, rfl⟩ := List.exists_cons_of_ne_nil some
  have behind := tail_named name (d :: digits ++ 0x20 :: more)
  rw [← packet, ← length, ← packet, known] at behind
  obtain rfl : 0x2B = d := (List.cons.inj behind).1
  exact absurd (all _ List.mem_cons_self) (by decide)

end T113Boot.Ymodem.Header
