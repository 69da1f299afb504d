import Champy.LittleEndian
import Mathlib.Data.List.Basic

/-!
# Readers of byte strings and the formats they accept

A reader moves a position through a byte string and returns a value or fails.  A
format says which bytes stand for which value.  A reader recognizes a format when
it accepts exactly the positions where such bytes come next, and then returns the
value they stand for and stops right behind them.

One rule for each way of building a reader gives the format of a whole parser from
the formats of its parts.  Two parsers that recognize the same format accept the same
bytes and return the same values, however they are written and whatever errors they
report.

The file names nothing of any particular program.
-/

namespace Champy

open List

/-- A reader returns a value and the position behind it, or fails. -/
abbrev Reader (σ ε α : Type) : Type := StateT σ (Except ε) α

/-- Positions in a byte string, and the reading of the next few bytes. -/
class ByteSource (σ : Type) (ε : outParam Type) where
  rest : σ → List UInt8
  advance : Nat → σ → σ
  read : Nat → Reader σ ε (List UInt8)
  advance_zero : ∀ start, advance 0 start = start
  advance_add : ∀ first second start,
    advance (first + second) start = advance second (advance first start)
  rest_advance : ∀ count start, rest (advance count start) = (rest start).drop count
  read_eq_ok : ∀ {count start bytes finish}, read count start = .ok (bytes, finish) ↔
    bytes.length = count ∧ bytes <+: rest start ∧ finish = advance count start

namespace Reader

open ByteSource

variable {σ ε α β : Type} {format : α → List UInt8 → Prop} {first : Reader σ ε α}
  {next : α → Reader σ ε β}
  {encode : α → List UInt8}

variable {start finish : σ}

theorem bind_eq_ok {value : β} : (first >>= next) start = .ok (value, finish) ↔
      ∃ middle pos, first start = .ok (middle, pos) ∧ next middle pos = .ok (value, finish) := by
  change (first start >>= fun res => next res.1 res.2) = .ok (value, finish) ↔ _
  cases first start with
  | error failure => simp [bind, Except.bind]
  | ok res =>
    obtain ⟨middle, pos⟩ := res
    simp [bind, Except.bind]

theorem bind_of_ok {start pos : σ} {middle : α} (read : first start = .ok (middle, pos)) :
    (first >>= next) start = next middle pos := by
  change (first start >>= fun res => next res.1 res.2) = next middle pos
  rw [read]
  rfl

variable [ByteSource σ ε]

/-- The given bytes come next, and the reader has moved behind them. -/
def Consumes (bytes : List UInt8) (start finish : σ) : Prop :=
  bytes <+: rest start ∧ finish = advance bytes.length start

theorem consumes_nil : Consumes [] start finish ↔ finish = start := by
  rw [Consumes, length_nil, advance_zero]
  exact and_iff_right nil_prefix

theorem consumes_append {first second : List UInt8} : Consumes (first ++ second) start finish ↔
      ∃ middle, Consumes first start middle ∧ Consumes second middle finish := by
  have split : first ++ second <+: rest start ↔
      first <+: rest start ∧ second <+: rest (advance first.length start) := by
    rw [rest_advance]
    constructor
    · rintro ⟨tail, whole⟩
      rw [← whole, append_assoc]
      exact ⟨prefix_append first _, by simp⟩
    · rintro ⟨⟨tail, whole⟩, next⟩
      rw [← whole, drop_left] at next
      rw [← whole]
      exact (prefix_append_right_inj first).mpr next
  rw [Consumes, split, length_append, advance_add]
  constructor
  · rintro ⟨⟨before, after⟩, behind⟩
    exact ⟨advance first.length start, ⟨before, rfl⟩, after, behind⟩
  · rintro ⟨middle, ⟨before, rfl⟩, after, behind⟩
    exact ⟨⟨before, after⟩, behind⟩

/-- The reader accepts the positions where bytes of the format come next, and returns
the value they stand for. -/
def Recognizes (read : Reader σ ε α) (format : α → List UInt8 → Prop) : Prop :=
  ∀ start value finish, read start = .ok (value, finish) ↔
    ∃ bytes, format value bytes ∧ Consumes bytes start finish

variable {format' : α → List UInt8 → Prop}

theorem Recognizes.congr {read : Reader σ ε α} (recognizes : Recognizes read format)
    (same : ∀ value bytes, format value bytes ↔ format' value bytes) :
    Recognizes read format' := by
  intro start value finish
  rw [recognizes start value finish]
  simp only [same]

theorem recognizes_pure (value : α) :
    Recognizes (pure value : Reader σ ε α) fun res bytes => res = value ∧ bytes = [] := by
  intro start res finish
  change Except.ok (value, start) = Except.ok (res, finish) ↔ _
  rw [Except.ok.injEq, Prod.mk.injEq]
  constructor
  · rintro ⟨rfl, rfl⟩
    exact ⟨[], ⟨rfl, rfl⟩, consumes_nil.mpr rfl⟩
  · rintro ⟨bytes, ⟨rfl, rfl⟩, consumed⟩
    exact ⟨rfl, (consumes_nil.mp consumed).symm⟩

theorem recognizes_of_fails {read : Reader σ ε α}
    (fails : ∀ start, ∃ error, read start = .error error) :
    Recognizes read fun _ _ => False := by
  intro start value finish
  obtain ⟨error, failed⟩ := fails start
  simp [failed]

theorem recognizes_read (count : Nat) :
    Recognizes (read count : Reader σ ε (List UInt8)) fun value bytes =>
      bytes = value ∧ value.length = count := by
  intro start value finish
  rw [read_eq_ok]
  constructor
  · rintro ⟨length, comes, behind⟩
    refine ⟨value, ⟨rfl, length⟩, comes, ?_⟩
    rw [length]
    exact behind
  · rintro ⟨bytes, ⟨rfl, rfl⟩, comes, behind⟩
    exact ⟨rfl, comes, behind⟩

theorem Recognizes.bind {format' : α → β → List UInt8 → Prop} (recognizes : Recognizes first format)
    (nexts : ∀ middle bytes, format middle bytes → Recognizes (next middle) (format' middle)) :
    Recognizes (first >>= next) fun value bytes =>
      ∃ middle before after, format middle before ∧ format' middle value after ∧
        bytes = before ++ after := by
  intro start value finish
  rw [bind_eq_ok]
  constructor
  · rintro ⟨middle, pos, firstRead, nextRead⟩
    obtain ⟨before, isBefore, toMiddle⟩ := (recognizes _ _ _).mp firstRead
    obtain ⟨after, isAfter, fromMiddle⟩ := (nexts middle before isBefore _ _ _).mp nextRead
    exact ⟨before ++ after, ⟨middle, before, after, isBefore, isAfter, rfl⟩,
      consumes_append.mpr ⟨pos, toMiddle, fromMiddle⟩⟩
  · rintro ⟨bytes, ⟨middle, before, after, isBefore, isAfter, rfl⟩, consumed⟩
    obtain ⟨pos, toMiddle, fromMiddle⟩ := consumes_append.mp consumed
    exact ⟨middle, pos, (recognizes _ _ _).mpr ⟨before, isBefore, toMiddle⟩,
      (nexts middle before isBefore _ _ _).mpr ⟨after, isAfter, fromMiddle⟩⟩

/-- A reader whose result is only a function of what was read. -/
theorem Recognizes.map (recognizes : Recognizes first format) (convert : α → β) :
    Recognizes (first >>= fun middle => pure (convert middle)) fun value bytes =>
      ∃ middle, format middle bytes ∧ value = convert middle := by
  apply (recognizes.bind fun middle _ _ => recognizes_pure (convert middle)).congr
  intro value bytes
  constructor
  · rintro ⟨middle, before, after, isBefore, ⟨rfl, rfl⟩, rfl⟩
    exact ⟨middle, by rwa [append_nil], rfl⟩
  · rintro ⟨middle, isBytes, rfl⟩
    exact ⟨middle, bytes, [], isBytes, ⟨rfl, rfl⟩, (append_nil bytes).symm⟩

variable {yes no : Reader σ ε α}

theorem Recognizes.ite {cond : Prop} [Decidable cond] (recognizesYes : cond → Recognizes yes format)
    (recognizesNo : ¬cond → Recognizes no format') :
    Recognizes (if cond then yes else no) fun value bytes =>
      (cond ∧ format value bytes) ∨ (¬cond ∧ format' value bytes) := by
  by_cases holds : cond
  · rw [if_pos holds]
    exact (recognizesYes holds).congr fun value bytes => by simp [holds]
  · rw [if_neg holds]
    exact (recognizesNo holds).congr fun value bytes => by simp [holds]

theorem Recognizes.guarded {cond : Prop} [Decidable cond]
    (recognizes : Recognizes yes format) (fails : ∀ start, ∃ error, no start = .error error) :
    Recognizes (if cond then yes else no) fun value bytes =>
      cond ∧ format value bytes := by
  apply (Recognizes.ite (fun _ => recognizes) fun _ => recognizes_of_fails fails).congr
  intro value bytes
  simp

/-- A choice made on the bytes that come next.  Every byte string of both formats is long
enough to decide it. -/
theorem Recognizes.lookahead (test : List UInt8 → Bool) (recognizesYes : Recognizes yes format)
    (recognizesNo : Recognizes no format')
    (decided : ∀ value bytes, format value bytes ∨ format' value bytes →
      ∀ tail, test (bytes ++ tail) = test bytes) :
    Recognizes (get >>= fun start => if test (rest start) then yes else no)
      fun value bytes => (test bytes = true ∧ format value bytes) ∨
        (test bytes = false ∧ format' value bytes) := by
  intro start value finish
  change (if test (rest start) then yes else no) start = .ok (value, finish) ↔ _
  have same : ∀ bytes, format value bytes ∨ format' value bytes →
      Consumes bytes start finish → test (rest start) = test bytes := by
    rintro bytes isFormat ⟨⟨tail, whole⟩, -⟩
    rw [← whole]
    exact decided value bytes isFormat tail
  cases tested : test (rest start) with
  | true =>
    rw [if_pos rfl, recognizesYes start value finish]
    constructor
    · rintro ⟨bytes, isFormat, consumed⟩
      have testBytes := same bytes (Or.inl isFormat) consumed
      exact ⟨bytes, Or.inl ⟨testBytes ▸ tested, isFormat⟩, consumed⟩
    · rintro ⟨bytes, ⟨-, isFormat⟩ | ⟨testBytes, isFormat⟩, consumed⟩
      · exact ⟨bytes, isFormat, consumed⟩
      · have testStart := same bytes (Or.inr isFormat) consumed
        rw [testBytes, tested] at testStart
        exact absurd testStart Bool.noConfusion
  | false =>
    rw [if_neg Bool.noConfusion, recognizesNo start value finish]
    constructor
    · rintro ⟨bytes, isFormat, consumed⟩
      have testBytes := same bytes (Or.inr isFormat) consumed
      exact ⟨bytes, Or.inr ⟨testBytes ▸ tested, isFormat⟩, consumed⟩
    · rintro ⟨bytes, ⟨testBytes, isFormat⟩ | ⟨-, isFormat⟩, consumed⟩
      · have testStart := same bytes (Or.inl isFormat) consumed
        rw [testBytes, tested] at testStart
        exact absurd testStart Bool.noConfusion
      · exact ⟨bytes, isFormat, consumed⟩

theorem Recognizes.checked {check : Reader σ ε Unit} {next : Reader σ ε α}
    (recognizes : Recognizes next format) (passes : Nat → Prop)
    (passed : ∀ start, passes (rest start).length → check start = .ok ((), start))
    (failed : ∀ start, ¬passes (rest start).length → ∃ error, check start = .error error)
    (enough : ∀ value bytes left, format value bytes → bytes.length ≤ left → passes left) :
    Recognizes (check >>= fun _ => next) format := by
  intro start value finish
  rw [bind_eq_ok, ← recognizes start value finish]
  constructor
  · rintro ⟨⟨⟩, pos, checkedOk, nextRead⟩
    by_cases holds : passes (rest start).length
    · rw [passed start holds, Except.ok.injEq, Prod.mk.injEq] at checkedOk
      rw [checkedOk.2]
      exact nextRead
    · obtain ⟨error, failure⟩ := failed start holds
      simp [failure] at checkedOk
  · intro nextRead
    obtain ⟨bytes, isFormat, comes, -⟩ := (recognizes start value finish).mp nextRead
    exact ⟨(), start, passed start (enough value bytes _ isFormat comes.length_le), nextRead⟩

theorem Recognizes.whole {read : Reader σ ε α} (recognizes : Recognizes read format) {start : σ}
    {value : α} :
    (∃ finish, read start = .ok (value, finish) ∧ rest finish = []) ↔
      format value (rest start) := by
  constructor
  · rintro ⟨finish, ok, nothingLeft⟩
    obtain ⟨bytes, isFormat, ⟨tail, whole⟩, rfl⟩ := (recognizes _ _ _).mp ok
    rw [rest_advance, ← whole, drop_left] at nothingLeft
    rw [← whole, nothingLeft, append_nil]
    exact isFormat
  · intro isFormat
    refine ⟨advance (rest start).length start,
      (recognizes _ _ _).mpr ⟨rest start, isFormat, prefix_rfl, rfl⟩, ?_⟩
    rw [rest_advance, drop_length]

/-! ## Repetition -/

/-- Read the given number of items, one after the other. -/
def readMany (item : Reader σ ε α) : Nat → Reader σ ε (List α)
  | 0 => pure []
  | count + 1 => do
      let first ← item
      let others ← readMany item count
      pure (first :: others)

/-- The format in which a valid value has one encoding. -/
def Encoded (encode : α → List UInt8) (valid : α → Prop) (value : α) (bytes : List UInt8) : Prop :=
  bytes = encode value ∧ valid value

theorem Recognizes.bindEncoded {valid : α → Prop} {format : α → β → List UInt8 → Prop}
    (recognizes : Recognizes first (Encoded encode valid))
    (nexts : ∀ middle, valid middle → Recognizes (next middle) (format middle)) :
    Recognizes (first >>= next) fun value bytes =>
      ∃ middle after, valid middle ∧ format middle value after ∧
        bytes = encode middle ++ after := by
  apply (recognizes.bind fun middle _ isEncoded => nexts middle isEncoded.2).congr
  intro value bytes
  constructor
  · rintro ⟨middle, before, after, ⟨rfl, isValid⟩, isAfter, rfl⟩
    exact ⟨middle, after, isValid, isAfter, rfl⟩
  · rintro ⟨middle, after, isValid, isAfter, rfl⟩
    exact ⟨middle, encode middle, after, ⟨rfl, isValid⟩, isAfter, rfl⟩

theorem recognizes_readMany {item : Reader σ ε α} {valid : α → Prop}
    (recognizes : Recognizes item (Encoded encode valid)) (count : Nat) :
    Recognizes (readMany item count) (Encoded (flatMap encode) fun values =>
      values.length = count ∧ ∀ value ∈ values, valid value) := by
  induction count with
  | zero =>
    apply (recognizes_pure []).congr
    intro values bytes
    constructor
    · rintro ⟨rfl, rfl⟩
      exact ⟨rfl, rfl, by simp⟩
    · rintro ⟨rfl, empty, -⟩
      obtain rfl := eq_nil_of_length_eq_zero empty
      exact ⟨rfl, rfl⟩
  | succ count ih =>
    apply (recognizes.bindEncoded fun first _ => ih.map (cons first)).congr
    intro values bytes
    constructor
    · rintro ⟨first, after, isFirst, ⟨others, ⟨rfl, length, areOthers⟩, rfl⟩, rfl⟩
      refine ⟨by rw [flatMap_cons], by rw [length_cons, length], ?_⟩
      exact forall_mem_cons.mpr ⟨isFirst, areOthers⟩
    · rintro ⟨rfl, length, areItems⟩
      cases values with
      | nil => simp at length
      | cons first others =>
        rw [length_cons, Nat.add_right_cancel_iff] at length
        rw [forall_mem_cons] at areItems
        exact ⟨first, others.flatMap encode, areItems.1,
          ⟨others, ⟨rfl, length, areItems.2⟩, rfl⟩, flatMap_cons⟩

/-! ### Records that are read in two passes -/

section TwoPasses

variable {γ δ : Type} {combine : α → γ → δ} {first : δ → α} {second : δ → γ}

theorem zipWith_map_map (combined : ∀ record, combine (first record) (second record) = record)
    (records : List δ) :
    zipWith combine (records.map first) (records.map second) = records := by
  induction records with
  | nil => rfl
  | cons record records ih =>
    rw [map_cons, map_cons, zipWith_cons_cons, combined, ih]

theorem map_zipWith_first {firsts : List α} {seconds : List γ}
    (first_combine : ∀ value ∈ firsts, ∀ other, first (combine value other) = value)
    (length : seconds.length = firsts.length) :
    (zipWith combine firsts seconds).map first = firsts := by
  induction firsts generalizing seconds with
  | nil => rfl
  | cons value firsts ih =>
    cases seconds with
    | nil => simp at length
    | cons other seconds =>
      rw [forall_mem_cons] at first_combine
      rw [length_cons, length_cons, Nat.add_right_cancel_iff] at length
      rw [zipWith_cons_cons, map_cons, first_combine.1, ih first_combine.2 length]

theorem map_zipWith_second {firsts : List α} {seconds : List γ}
    (second_combine : ∀ value other, second (combine value other) = other)
    (length : seconds.length = firsts.length) :
    (zipWith combine firsts seconds).map second = seconds := by
  induction firsts generalizing seconds with
  | nil =>
    obtain rfl := eq_nil_of_length_eq_zero length
    rfl
  | cons value firsts ih =>
    cases seconds with
    | nil => simp at length
    | cons other seconds =>
      rw [length_cons, length_cons, Nat.add_right_cancel_iff] at length
      rw [zipWith_cons_cons, map_cons, second_combine, ih length]

end TwoPasses

/-! ### Fixed widths -/

/-- Values of a fixed width: every byte string of that length stands for one. -/
structure FixedWidth (width : Nat) (decode : List UInt8 → α) (encode : α → List UInt8) : Prop where
  length_encode : ∀ value, (encode value).length = width
  decode_encode : ∀ value, decode (encode value) = value
  encode_decode : ∀ bytes, bytes.length = width → encode (decode bytes) = bytes

theorem recognizes_fixedWidth {width : Nat} {decode : List UInt8 → α}
    (fixed : FixedWidth width decode encode) :
    Recognizes (read width >>= fun bytes => pure (decode bytes) : Reader σ ε α)
      (Encoded encode fun _ => True) := by
  apply ((recognizes_read width).map decode).congr
  intro value bytes
  constructor
  · rintro ⟨read, ⟨rfl, length⟩, rfl⟩
    exact ⟨(fixed.encode_decode bytes length).symm, trivial⟩
  · rintro ⟨rfl, -⟩
    exact ⟨encode value, ⟨rfl, fixed.length_encode value⟩, (fixed.decode_encode value).symm⟩

/-- Numbers in little-endian form, under any correspondence of values with numbers below the
bound. -/
theorem fixedWidth_littleEndian {width : Nat} {decode : Nat → α} {encode : α → Nat}
    (bound : ∀ value, encode value < 256 ^ width)
    (decode_encode : ∀ value, decode (encode value) = value)
    (encode_decode : ∀ num, num < 256 ^ width → encode (decode num) = num) :
    FixedWidth width (fun bytes => decode (readLE bytes))
      fun value => writeLE width (encode value) where
  length_encode value := length_writeLE width (encode value)
  decode_encode value := by rw [readLE_writeLE (bound value), decode_encode]
  encode_decode bytes length := by
    rw [encode_decode _ (length ▸ readLE_lt bytes), ← length, writeLE_readLE]

end Reader

end Champy
