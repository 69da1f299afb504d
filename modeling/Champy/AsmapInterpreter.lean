import Champy.MeasuredLoops
import Mathlib.Tactic.Ring

/-!
# The asmap interpreter

An asmap is a string of bits that holds the instructions of a binary trie.  `Interpret` follows
the bits of an address through it; `SanityCheckAsmap` goes over all instructions once, with a
stack of the places it has still to come to.

A read outside a span and the final `assert` of `Interpret` are the two ways to fail.  Bits of
the asmap are counted from the low end of each byte, bits of an address from the high end.
-/

namespace Champy

namespace Asmap

inductive AsmapFault
  | outsideSpan
  | assertion
  deriving DecidableEq, Repr

abbrev Access (α : Type) : Type := Except AsmapFault α

theorem Access.bind_eq_ok {α β : Type} {access : Access α} {next : α → Access β} {res : β} :
    (access >>= next) = .ok res ↔ ∃ value, access = .ok value ∧ next value = .ok res := by
  cases access with
  | error fault => simp [bind, Except.bind]
  | ok value => simp [bind, Except.bind]

def invalid : UInt32 := 0xFFFFFFFF

def consumeBitLE (bitpos : Nat) (bytes : List UInt8) : Access (Bool × Nat) :=
  match bytes[bitpos / 8]? with
  | none => .error .outsideSpan
  | some byte => .ok ((byte >>> UInt8.ofNat (bitpos % 8)) &&& 1 == 1, bitpos + 1)

def consumeBitBE (bitpos : UInt8) (bytes : List UInt8) : Access (Bool × UInt8) :=
  match bytes[bitpos.toNat / 8]? with
  | none => .error .outsideSpan
  | some byte => .ok ((byte >>> (7 - bitpos % 8)) &&& 1 == 1, bitpos + 1)

/-! ## Numbers of variable length -/

/-- The loop over the bits of the position inside a class, of which some are left. -/
def decodeMantissa (data : List UInt8) : Nat → UInt32 → Nat → Access (UInt32 × Nat)
  | 0, val, bitpos => .ok (val, bitpos)
  | left + 1, val, bitpos =>
    if data.length * 8 ≤ bitpos then .ok (invalid, bitpos)
    else do
      let (bit, bitpos) ← consumeBitLE bitpos data
      decodeMantissa data left (val + (if bit then 1 <<< UInt32.ofNat left else 0)) bitpos

/-- The loop over the classes.  The last one has no continuation bit. -/
def decodeClasses (data : List UInt8) : List Nat → UInt32 → Nat → Access (UInt32 × Nat)
  | [], _, bitpos => .ok (invalid, bitpos)
  | [size], val, bitpos => decodeMantissa data size val bitpos
  | size :: next :: sizes, val, bitpos =>
    if data.length * 8 ≤ bitpos then .ok (invalid, bitpos)
    else do
      let (bit, bitpos) ← consumeBitLE bitpos data
      if bit then decodeClasses data (next :: sizes) (val + (1 <<< UInt32.ofNat size)) bitpos
      else decodeMantissa data size val bitpos

def decodeBits (bitpos : Nat) (data : List UInt8) (minval : UInt8) (bitSizes : List Nat) :
    Access (UInt32 × Nat) :=
  decodeClasses data bitSizes minval.toUInt32 bitpos

variable {data : List UInt8} {bitpos : Nat}

theorem consumeBitLE_of_lt {bytes : List UInt8} (inside : bitpos < bytes.length * 8) :
    ∃ bit, consumeBitLE bitpos bytes = .ok (bit, bitpos + 1) := by
  have present : bitpos / 8 < bytes.length := by omega
  rw [consumeBitLE, List.getElem?_eq_getElem present]
  exact ⟨_, rfl⟩

/-- Where a decoder ends that started inside the data. -/
def EndsInside (data : List UInt8) (bitpos : Nat) {α : Type} (decoded : Access (α × Nat)) : Prop :=
  ∃ value ended, decoded = .ok (value, ended) ∧ bitpos ≤ ended ∧ ended ≤ data.length * 8

theorem decodeMantissa_endsInside (left : Nat) (val : UInt32) (inside : bitpos ≤ data.length * 8) :
    EndsInside data bitpos (decodeMantissa data left val bitpos) := by
  induction left generalizing val bitpos with
  | zero => exact ⟨val, bitpos, rfl, le_rfl, inside⟩
  | succ left ih =>
    rw [decodeMantissa]
    split
    next atEnd => exact ⟨invalid, bitpos, rfl, le_rfl, inside⟩
    next notAtEnd =>
      obtain ⟨bit, consumed⟩ := consumeBitLE_of_lt (Nat.lt_of_not_le notAtEnd)
      obtain ⟨value, ended, decoded, later, bound⟩ :=
        ih (val + (if bit then 1 <<< UInt32.ofNat left else 0)) (show bitpos + 1 ≤ _ by omega)
      rw [consumed]
      exact ⟨value, ended, decoded, by omega, bound⟩

theorem decodeClasses_endsInside (sizes : List Nat) (val : UInt32)
    (inside : bitpos ≤ data.length * 8) :
    EndsInside data bitpos (decodeClasses data sizes val bitpos) := by
  induction sizes generalizing val bitpos with
  | nil => exact ⟨invalid, bitpos, rfl, le_rfl, inside⟩
  | cons size sizes ih =>
    cases sizes with
    | nil => exact decodeMantissa_endsInside size val inside
    | cons next sizes =>
      rw [decodeClasses]
      split
      next atEnd => exact ⟨invalid, bitpos, rfl, le_rfl, inside⟩
      next notAtEnd =>
        obtain ⟨bit, consumed⟩ := consumeBitLE_of_lt (Nat.lt_of_not_le notAtEnd)
        have further : bitpos + 1 ≤ data.length * 8 := by omega
        rw [consumed]
        cases bit with
        | true =>
          obtain ⟨value, ended, decoded, later, bound⟩ :=
            ih (val + (1 <<< UInt32.ofNat size)) further
          exact ⟨value, ended, decoded, by omega, bound⟩
        | false =>
          obtain ⟨value, ended, decoded, later, bound⟩ := decodeMantissa_endsInside size val further
          exact ⟨value, ended, decoded, by omega, bound⟩

inductive Instruction
  | returnAsn
  | jump
  | matchBits
  | defaultAsn
  deriving DecidableEq, Repr

/-- The instruction of a code; other values of the enumeration are none of the four. -/
def Instruction.ofCode (code : UInt32) : Option Instruction :=
  if code = 0 then some .returnAsn
  else if code = 1 then some .jump
  else if code = 2 then some .matchBits
  else if code = 3 then some .defaultAsn
  else none

def typeBitSizes : List Nat := [0, 0, 1]

def decodeType (bitpos : Nat) (data : List UInt8) : Access (Option Instruction × Nat) := do
  let (code, bitpos) ← decodeBits bitpos data 0 typeBitSizes
  pure (Instruction.ofCode code, bitpos)

def asnBitSizes : List Nat := [15, 16, 17, 18, 19, 20, 21, 22, 23, 24]

def decodeASN (bitpos : Nat) (data : List UInt8) : Access (UInt32 × Nat) :=
  decodeBits bitpos data 1 asnBitSizes

def matchBitSizes : List Nat := [1, 2, 3, 4, 5, 6, 7, 8]

def decodeMatch (bitpos : Nat) (data : List UInt8) : Access (UInt32 × Nat) :=
  decodeBits bitpos data 2 matchBitSizes

def jumpBitSizes : List Nat :=
  [5, 6, 7, 8, 9, 10, 11, 12, 13, 14, 15, 16, 17, 18, 19, 20, 21, 22, 23, 24, 25, 26, 27, 28, 29, 30]

def decodeJump (bitpos : Nat) (data : List UInt8) : Access (UInt32 × Nat) :=
  decodeBits bitpos data 17 jumpBitSizes

def decodeArgument : Instruction → Nat → List UInt8 → Access (UInt32 × Nat)
  | .returnAsn => decodeASN
  | .jump => decodeJump
  | .matchBits => decodeMatch
  | .defaultAsn => decodeASN

theorem decodeArgument_endsInside (opcode : Instruction) (inside : bitpos ≤ data.length * 8) :
    EndsInside data bitpos (decodeArgument opcode bitpos data) := by
  cases opcode with
  | returnAsn => exact decodeClasses_endsInside asnBitSizes _ inside
  | jump => exact decodeClasses_endsInside jumpBitSizes _ inside
  | matchBits => exact decodeClasses_endsInside matchBitSizes _ inside
  | defaultAsn => exact decodeClasses_endsInside asnBitSizes _ inside

theorem decodeType_of_lt (inside : bitpos < data.length * 8) :
    ∃ opcode ended, decodeType bitpos data = .ok (opcode, ended) ∧ bitpos < ended ∧
      ended ≤ data.length * 8 := by
  obtain ⟨bit, consumed⟩ := consumeBitLE_of_lt inside
  have rest : EndsInside data (bitpos + 1) (decodeBits bitpos data 0 typeBitSizes) := by
    rw [decodeBits, typeBitSizes, decodeClasses, if_neg (by omega), consumed]
    cases bit with
    | true => exact decodeClasses_endsInside [0, 1] _ (by omega)
    | false => exact decodeMantissa_endsInside 0 _ (by omega)
  obtain ⟨code, ended, decoded, later, bound⟩ := rest
  rw [decodeType, decoded]
  exact ⟨Instruction.ofCode code, ended, rfl, later, bound⟩

theorem decodeType_of_le (outside : data.length * 8 ≤ bitpos) :
    decodeType bitpos data = .ok (none, bitpos) := by
  rw [decodeType, decodeBits, typeBitSizes, decodeClasses, if_pos outside]
  rfl

/-- An instruction and its argument stand at a position, and another position comes after. -/
def DecodesAt (asmap : List UInt8) (pos : Nat) (opcode : Instruction) (argument : UInt32)
    (next : Nat) : Prop :=
  ∃ middle, decodeType pos asmap = .ok (some opcode, middle) ∧
    decodeArgument opcode middle asmap = .ok (argument, next) ∧ argument ≠ invalid

theorem DecodesAt.advances {asmap : List UInt8} {pos next : Nat} {opcode : Instruction}
    {argument : UInt32} (decodes : DecodesAt asmap pos opcode argument next) :
    pos < next ∧ next ≤ asmap.length * 8 := by
  obtain ⟨middle, typed, argued, -⟩ := decodes
  rcases Nat.lt_or_ge pos (asmap.length * 8) with inside | outside
  · obtain ⟨opcode', ended, typed', later, bound⟩ := decodeType_of_lt inside
    rw [typed] at typed'
    cases typed'
    obtain ⟨argument', ended', argued', later', bound'⟩ := decodeArgument_endsInside opcode bound
    rw [argued] at argued'
    cases argued'
    exact ⟨by omega, bound'⟩
  · rw [decodeType_of_le outside] at typed
    cases typed

def bitWidth (value : UInt32) : Nat :=
  if value = 0 then 0 else value.toNat.log2 + 1

/-! ## Interpretation -/

structure InterpretState where
  pos : Nat := 0
  ipBit : UInt8 := 0
  defaultAsn : UInt32 := 0
  deriving DecidableEq, Repr

/-- The loop over the bits of a match, of which some are left; none when one differs. -/
def matchRest (ip : List UInt8) (pattern : UInt32) : Nat → UInt8 → Access (Option UInt8)
  | 0, ipBit => .ok (some ipBit)
  | left + 1, ipBit => do
      let (bit, ipBit) ← consumeBitBE ipBit ip
      if bit != ((pattern >>> UInt32.ofNat left) &&& 1 == 1) then pure none
      else matchRest ip pattern left ipBit

section Interpret

variable (asmap ip : List UInt8)

/-- The rest of a round after `RETURN`. -/
def interpretReturn (pos : Nat) : Access (UInt32 ⊕ InterpretState) := do
  let (asn, _) ← decodeASN pos asmap
  if asn = invalid then .error .assertion else pure (.inl asn)

def interpretJump (state : InterpretState) (pos : Nat) : Access (UInt32 ⊕ InterpretState) := do
  let (jump, pos) ← decodeJump pos asmap
  if jump = invalid then .error .assertion
  else if state.ipBit = UInt8.ofNat (ip.length * 8) then .error .assertion
  else if (jump.toNat : Int) ≥ ((asmap.length * 8 : Nat) : Int) - pos then .error .assertion
  else do
    let (bit, ipBit) ← consumeBitBE state.ipBit ip
    pure (.inr ⟨if bit then pos + jump.toNat else pos, ipBit, state.defaultAsn⟩)

def interpretMatch (state : InterpretState) (pos : Nat) : Access (UInt32 ⊕ InterpretState) := do
  let (pattern, pos) ← decodeMatch pos asmap
  let matchlen : Int := bitWidth pattern - 1
  if pattern = invalid then .error .assertion
  else if ((UInt8.ofNat (ip.length * 8)).toNat : Int) - state.ipBit.toNat < matchlen then
    .error .assertion
  else do
    match ← matchRest ip pattern matchlen.toNat state.ipBit with
    | none => pure (.inl state.defaultAsn)
    | some ipBit => pure (.inr ⟨pos, ipBit, state.defaultAsn⟩)

def interpretDefault (state : InterpretState) (pos : Nat) : Access (UInt32 ⊕ InterpretState) := do
  let (asn, pos) ← decodeASN pos asmap
  if asn = invalid then .error .assertion else pure (.inr ⟨pos, state.ipBit, asn⟩)

/-- One round of the loop of `Interpret`; leaving the loop leads to the `assert`. -/
def interpretRound (state : InterpretState) : Access (UInt32 ⊕ InterpretState) :=
  if state.pos < asmap.length * 8 then do
    let (opcode, pos) ← decodeType state.pos asmap
    match opcode with
    | some .returnAsn => interpretReturn asmap pos
    | some .jump => interpretJump asmap ip state pos
    | some .matchBits => interpretMatch asmap ip state pos
    | some .defaultAsn => interpretDefault asmap state pos
    | none => .error .assertion
  else .error .assertion

variable {asmap ip} {state next : InterpretState}

theorem interpretRound_eq_next (ran : interpretRound asmap ip state = .ok (.inr next)) :
    ∃ opcode argument pos, DecodesAt asmap state.pos opcode argument pos ∧ pos ≤ next.pos := by
  rw [interpretRound] at ran
  split at ran
  case isFalse => cases ran
  obtain ⟨⟨opcode, middle⟩, typed, ran⟩ := Access.bind_eq_ok.mp ran
  cases opcode with
  | none => cases ran
  | some opcode =>
    cases opcode with
    | returnAsn =>
      obtain ⟨⟨asn, pos⟩, -, ran⟩ := Access.bind_eq_ok.mp ran
      dsimp only at ran
      split at ran <;> cases ran
    | jump =>
      obtain ⟨⟨jump, pos⟩, argued, ran⟩ := Access.bind_eq_ok.mp ran
      dsimp only at ran
      split at ran
      · cases ran
      next valid =>
        split at ran
        · cases ran
        · split at ran
          · cases ran
          · obtain ⟨⟨bit, ipBit⟩, -, ran⟩ := Access.bind_eq_ok.mp ran
            cases ran
            refine ⟨.jump, jump, pos, ⟨middle, typed, argued, valid⟩, ?_⟩
            cases bit <;> simp
    | matchBits =>
      obtain ⟨⟨pattern, pos⟩, argued, ran⟩ := Access.bind_eq_ok.mp ran
      dsimp only at ran
      split at ran
      · cases ran
      next valid =>
        split at ran
        · cases ran
        · obtain ⟨matched, -, ran⟩ := Access.bind_eq_ok.mp ran
          cases matched with
          | none => cases ran
          | some ipBit =>
            cases ran
            exact ⟨.matchBits, pattern, pos, ⟨middle, typed, argued, valid⟩, le_rfl⟩
    | defaultAsn =>
      obtain ⟨⟨asn, pos⟩, argued, ran⟩ := Access.bind_eq_ok.mp ran
      dsimp only at ran
      split at ran
      · cases ran
      next valid =>
        cases ran
        exact ⟨.defaultAsn, asn, pos, ⟨middle, typed, argued, valid⟩, le_rfl⟩

end Interpret

def interpretLoop (asmap ip : List UInt8) : MeasuredLoop InterpretState AsmapFault UInt32 where
  round := interpretRound asmap ip
  measure state := asmap.length * 8 - state.pos
  decreases := by
    intro state next ran
    obtain ⟨opcode, argument, pos, decodes, further⟩ := interpretRound_eq_next ran
    have advances := decodes.advances
    omega

def interpret (asmap ip : List UInt8) : Access UInt32 :=
  (interpretLoop asmap ip).run {}

/-! ## The sanity check -/

/-- The variables of `SanityCheckAsmap`, the last jump first. -/
structure SanityState where
  pos : Nat := 0
  jumps : List (UInt32 × Int) := []
  bits : Int
  prevopcode : Instruction := .jump
  hadIncompleteMatch : Bool := false
  deriving DecidableEq, Repr

/-- The loop over the padding, of which some bits are left. -/
def zeroPadding (asmap : List UInt8) : Nat → Nat → Access Bool
  | 0, _ => .ok true
  | left + 1, pos => do
      let (bit, pos) ← consumeBitLE pos asmap
      if bit then pure false else zeroPadding asmap left pos

section Sanity

variable (asmap : List UInt8)

/-- The rest of a round after `RETURN`. -/
def sanityReturn (state : SanityState) (pos : Nat) : Access (Bool ⊕ SanityState) :=
  if state.prevopcode = .defaultAsn then .ok (.inl false)
  else do
    let (asn, pos) ← decodeASN pos asmap
    if asn = invalid then pure (.inl false)
    else match state.jumps with
      | [] =>
        if asmap.length * 8 - pos > 7 then pure (.inl false)
        else do
          let sane ← zeroPadding asmap (asmap.length * 8 - pos) pos
          pure (.inl sane)
      | (offset, bits) :: jumps =>
        if pos ≠ offset.toNat then pure (.inl false)
        else pure (.inr ⟨pos, jumps, bits, .jump, state.hadIncompleteMatch⟩)

def sanityJump (state : SanityState) (pos : Nat) : Access (Bool ⊕ SanityState) := do
  let (jump, pos) ← decodeJump pos asmap
  if jump = invalid then pure (.inl false)
  else if (jump.toNat : Int) > ((asmap.length * 8 : Nat) : Int) - pos then pure (.inl false)
  else if state.bits = 0 then pure (.inl false)
  else
    let jumpOffset := UInt32.ofNat (pos + jump.toNat)
    if state.jumps.head?.any fun back => jumpOffset ≥ back.1 then pure (.inl false)
    else pure (.inr ⟨pos, (jumpOffset, state.bits - 1) :: state.jumps, state.bits - 1, .jump,
      state.hadIncompleteMatch⟩)

def sanityMatch (state : SanityState) (pos : Nat) : Access (Bool ⊕ SanityState) := do
  let (pattern, pos) ← decodeMatch pos asmap
  let matchlen : Int := bitWidth pattern - 1
  let hadIncompleteMatch := state.prevopcode == .matchBits && state.hadIncompleteMatch
  if pattern = invalid then pure (.inl false)
  else if matchlen < 8 ∧ hadIncompleteMatch then pure (.inl false)
  else if state.bits < matchlen then pure (.inl false)
  else pure (.inr ⟨pos, state.jumps, state.bits - matchlen, .matchBits, decide (matchlen < 8)⟩)

def sanityDefault (state : SanityState) (pos : Nat) : Access (Bool ⊕ SanityState) :=
  if state.prevopcode = .defaultAsn then .ok (.inl false)
  else do
    let (asn, pos) ← decodeASN pos asmap
    if asn = invalid then pure (.inl false)
    else pure (.inr ⟨pos, state.jumps, state.bits, .defaultAsn, state.hadIncompleteMatch⟩)

/-- One round of the loop of `SanityCheckAsmap`. -/
def sanityRound (state : SanityState) : Access (Bool ⊕ SanityState) :=
  if state.pos = asmap.length * 8 then .ok (.inl false)
  else if state.jumps.head?.any fun back => state.pos ≥ back.1.toNat then .ok (.inl false)
  else do
    let (opcode, pos) ← decodeType state.pos asmap
    match opcode with
    | some .returnAsn => sanityReturn asmap state pos
    | some .jump => sanityJump asmap state pos
    | some .matchBits => sanityMatch asmap state pos
    | some .defaultAsn => sanityDefault asmap state pos
    | none => pure (.inl false)

/-- What a round that goes on does. -/
inductive SanityStep (state : SanityState) : SanityState → Prop
  | land {asn offset : UInt32} {pos : Nat} {bits : Int} {jumps : List (UInt32 × Int)}
      (decodes : DecodesAt asmap state.pos .returnAsn asn pos)
      (back : state.jumps = (offset, bits) :: jumps) (lands : pos = offset.toNat) :
      SanityStep state ⟨pos, jumps, bits, .jump, state.hadIncompleteMatch⟩
  | jump {jump : UInt32} {pos : Nat} (decodes : DecodesAt asmap state.pos .jump jump pos)
      (inRange : pos + jump.toNat ≤ asmap.length * 8) (bitsLeft : state.bits ≠ 0) :
      SanityStep state ⟨pos, (UInt32.ofNat (pos + jump.toNat), state.bits - 1) :: state.jumps,
        state.bits - 1, .jump, state.hadIncompleteMatch⟩
  | matchBits {pattern : UInt32} {pos : Nat} {hadIncompleteMatch : Bool}
      (decodes : DecodesAt asmap state.pos .matchBits pattern pos)
      (bitsLeft : (bitWidth pattern : Int) - 1 ≤ state.bits) :
      SanityStep state ⟨pos, state.jumps, state.bits - (bitWidth pattern - 1), .matchBits,
        hadIncompleteMatch⟩
  | defaultAsn {asn : UInt32} {pos : Nat} (decodes : DecodesAt asmap state.pos .defaultAsn asn pos) :
      SanityStep state ⟨pos, state.jumps, state.bits, .defaultAsn, state.hadIncompleteMatch⟩

/-- What a round comes to: a step, or a verdict, which is only good after a `RETURN` with no jump
left. -/
def SanityOutcome (state : SanityState) : Bool ⊕ SanityState → Prop :=
  Sum.elim (fun sane => sane = true →
    state.jumps = [] ∧ ∃ asn pos, DecodesAt asmap state.pos .returnAsn asn pos)
    (SanityStep asmap state)

variable {asmap} {state next : SanityState} {middle : Nat} {outcome : Bool ⊕ SanityState}

theorem sanityOutcome_of_false (ran : (.ok (.inl false) : Access (Bool ⊕ SanityState)) = .ok outcome) :
    SanityOutcome asmap state outcome := by
  cases ran
  exact nofun

theorem sanityOutcome_of_ite {cond : Prop} [Decidable cond] {rest : Access (Bool ⊕ SanityState)}
    (ran : (if cond then .ok (.inl false) else rest) = .ok outcome)
    (passes : ¬ cond → rest = .ok outcome → SanityOutcome asmap state outcome) :
    SanityOutcome asmap state outcome := by
  split at ran
  · exact sanityOutcome_of_false ran
  next passed => exact passes passed ran

theorem sanityReturn_outcome (typed : decodeType state.pos asmap = .ok (some .returnAsn, middle))
    (ran : sanityReturn asmap state middle = .ok outcome) : SanityOutcome asmap state outcome := by
  refine sanityOutcome_of_ite ran fun _ ran => ?_
  obtain ⟨⟨asn, pos⟩, argued, ran⟩ := Access.bind_eq_ok.mp ran
  refine sanityOutcome_of_ite ran fun valid ran => ?_
  cases back : state.jumps with
  | nil =>
    rw [back] at ran
    refine sanityOutcome_of_ite ran fun _ ran => ?_
    obtain ⟨sane, -, ended⟩ := Access.bind_eq_ok.mp ran
    cases ended
    exact fun _ => ⟨back, asn, pos, middle, typed, argued, valid⟩
  | cons jump jumps =>
    obtain ⟨offset, bits⟩ := jump
    rw [back] at ran
    refine sanityOutcome_of_ite ran fun lands ran => ?_
    cases ran
    exact .land ⟨middle, typed, argued, valid⟩ back (not_not.mp lands)

theorem sanityJump_outcome (typed : decodeType state.pos asmap = .ok (some .jump, middle))
    (ran : sanityJump asmap state middle = .ok outcome) : SanityOutcome asmap state outcome := by
  obtain ⟨⟨jump, pos⟩, argued, ran⟩ := Access.bind_eq_ok.mp ran
  refine sanityOutcome_of_ite ran fun valid ran => ?_
  refine sanityOutcome_of_ite ran fun inRange ran => ?_
  refine sanityOutcome_of_ite ran fun bitsLeft ran => ?_
  refine sanityOutcome_of_ite ran fun _ ran => ?_
  cases ran
  exact .jump ⟨middle, typed, argued, valid⟩ (by omega) bitsLeft

theorem sanityMatch_outcome (typed : decodeType state.pos asmap = .ok (some .matchBits, middle))
    (ran : sanityMatch asmap state middle = .ok outcome) : SanityOutcome asmap state outcome := by
  obtain ⟨⟨pattern, pos⟩, argued, ran⟩ := Access.bind_eq_ok.mp ran
  refine sanityOutcome_of_ite ran fun valid ran => ?_
  refine sanityOutcome_of_ite ran fun _ ran => ?_
  refine sanityOutcome_of_ite ran fun bitsLeft ran => ?_
  cases ran
  exact .matchBits ⟨middle, typed, argued, valid⟩ (by omega)

theorem sanityDefault_outcome (typed : decodeType state.pos asmap = .ok (some .defaultAsn, middle))
    (ran : sanityDefault asmap state middle = .ok outcome) : SanityOutcome asmap state outcome := by
  refine sanityOutcome_of_ite ran fun _ ran => ?_
  obtain ⟨⟨asn, pos⟩, argued, ran⟩ := Access.bind_eq_ok.mp ran
  refine sanityOutcome_of_ite ran fun valid ran => ?_
  cases ran
  exact .defaultAsn ⟨middle, typed, argued, valid⟩

theorem sanityRound_outcome (ran : sanityRound asmap state = .ok outcome) :
    SanityOutcome asmap state outcome := by
  refine sanityOutcome_of_ite ran fun _ ran => ?_
  refine sanityOutcome_of_ite ran fun _ ran => ?_
  obtain ⟨⟨opcode, middle⟩, typed, ran⟩ := Access.bind_eq_ok.mp ran
  cases opcode with
  | none => exact sanityOutcome_of_false ran
  | some opcode =>
    cases opcode with
    | returnAsn => exact sanityReturn_outcome typed ran
    | jump => exact sanityJump_outcome typed ran
    | matchBits => exact sanityMatch_outcome typed ran
    | defaultAsn => exact sanityDefault_outcome typed ran

theorem SanityStep.decodes (step : SanityStep asmap state next) :
    ∃ opcode argument, DecodesAt asmap state.pos opcode argument next.pos := by
  cases step with
  | land decodes => exact ⟨_, _, decodes⟩
  | jump decodes => exact ⟨_, _, decodes⟩
  | matchBits decodes => exact ⟨_, _, decodes⟩
  | defaultAsn decodes => exact ⟨_, _, decodes⟩

end Sanity

def sanityLoop (asmap : List UInt8) : MeasuredLoop SanityState AsmapFault Bool where
  round := sanityRound asmap
  measure state := asmap.length * 8 - state.pos
  decreases := by
    intro state next ran
    obtain ⟨opcode, argument, decodes⟩ := SanityStep.decodes (sanityRound_outcome ran)
    have advances := decodes.advances
    omega

def sanityCheckAsmap (asmap : List UInt8) (bits : Int) : Access Bool :=
  (sanityLoop asmap).run { bits := bits }

end Asmap

end Champy
