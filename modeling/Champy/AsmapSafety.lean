import Champy.AsmapInterpreter

/-!
# Lookups in a sane asmap

Every place that `Interpret` comes to is a place of the pass of `SanityCheckAsmap`, with the
same number of address bits left.  Where the interpreter goes on in order this is the next
round of the check.  Where it jumps, the check has put the target on its stack, and a check
that succeeds takes it off again exactly when it comes to the target.
-/

namespace Champy

open MeasuredLoop

namespace Asmap

variable {asmap ip : List UInt8}

/-- The positions that a pass from the start comes to. -/
inductive InstructionAt (asmap : List UInt8) : Nat → Prop
  | start : InstructionAt asmap 0
  | next {pos following : Nat} {opcode : Instruction} {argument : UInt32}
      (earlier : InstructionAt asmap pos) (decodes : DecodesAt asmap pos opcode argument following) :
      InstructionAt asmap following

/-- The arguments of the `RETURN` and `DEFAULT` instructions. -/
def IsAsn (asmap : List UInt8) (asn : UInt32) : Prop :=
  ∃ pos next, InstructionAt asmap pos ∧
    (DecodesAt asmap pos .returnAsn asn next ∨ DecodesAt asmap pos .defaultAsn asn next)

/-! ## The check -/

variable {state : SanityState}

theorem pos_lt_of_sane (sane : (sanityLoop asmap).run state = .ok true) :
    state.pos < asmap.length * 8 := by
  by_contra outside
  have stopped : (sanityLoop asmap).round state = .ok (.inl false) := by
    change sanityRound asmap state = _
    rw [sanityRound]
    split
    · rfl
    split
    · rfl
    rw [decodeType_of_le (Nat.le_of_not_lt outside)]
    rfl
  rw [run_of_result stopped] at sane
  cases sane

theorem sane_cases (sane : (sanityLoop asmap).run state = .ok true) :
    (∃ asn pos, DecodesAt asmap state.pos .returnAsn asn pos) ∨
      ∃ next, SanityStep asmap state next ∧ (sanityLoop asmap).run next = .ok true := by
  cases ran : (sanityLoop asmap).round state with
  | error fault =>
    rw [run_of_error ran] at sane
    cases sane
  | ok outcome =>
    cases outcome with
    | inl verdict =>
      rw [run_of_result ran] at sane
      cases sane
      exact .inl (sanityRound_outcome ran rfl).2
    | inr next =>
      rw [run_of_next ran] at sane
      exact .inr ⟨next, sanityRound_outcome ran, sane⟩

/-- Each jump on the stack is taken off where it leads to. -/
theorem sane_at_target (sane : (sanityLoop asmap).run state = .ok true) {offset : UInt32}
    {bits : Int} {jumps : List (UInt32 × Int)} (above : List (UInt32 × Int))
    (pending : state.jumps = above ++ (offset, bits) :: jumps)
    (here : InstructionAt asmap state.pos) :
    ∃ hadIncompleteMatch,
      (sanityLoop asmap).run ⟨offset.toNat, jumps, bits, .jump, hadIncompleteMatch⟩ = .ok true ∧
      InstructionAt asmap offset.toNat := by
  revert above pending here
  apply run_ok_induction (motive := fun state => ∀ above : List (UInt32 × Int),
    state.jumps = above ++ (offset, bits) :: jumps → InstructionAt asmap state.pos →
      ∃ hadIncompleteMatch,
        (sanityLoop asmap).run ⟨offset.toNat, jumps, bits, .jump, hadIncompleteMatch⟩ = .ok true ∧
        InstructionAt asmap offset.toNat) _ _ sane
  · intro last ran above pending
    rw [(sanityRound_outcome ran rfl).1] at pending
    simp at pending
  · intro current next ran rest ih above pending here
    cases (sanityRound_outcome ran : SanityStep asmap current next) with
    | land decodes back lands =>
      cases above with
      | nil =>
        rw [back, List.nil_append, List.cons.injEq, Prod.mk.injEq] at pending
        obtain ⟨⟨rfl, rfl⟩, rfl⟩ := pending
        subst lands
        exact ⟨_, rest, here.next decodes⟩
      | cons top above =>
        rw [back, List.cons_append, List.cons.injEq] at pending
        exact ih above pending.2 (here.next decodes)
    | jump decodes =>
      exact ih (_ :: above) (by rw [pending, List.cons_append]) (here.next decodes)
    | matchBits decodes => exact ih above pending (here.next decodes)
    | defaultAsn decodes => exact ih above pending (here.next decodes)

/-! ## Bits of the address -/

section Address

variable (address : ip.length = 16)

include address

theorem consumeBitBE_of_lt {ipBit : UInt8} (inside : ipBit.toNat < 128) :
    ∃ bit, consumeBitBE ipBit ip = .ok (bit, ipBit + 1) ∧ (ipBit + 1).toNat = ipBit.toNat + 1 := by
  have present : ipBit.toNat / 8 < ip.length := by omega
  rw [consumeBitBE, List.getElem?_eq_getElem present]
  refine ⟨_, rfl, ?_⟩
  rw [UInt8.toNat_add]
  exact Nat.mod_eq_of_lt (show ipBit.toNat + 1 < 2 ^ 8 by omega)

theorem matchRest_of_le (pattern : UInt32) {left : Nat} {ipBit : UInt8}
    (inside : ipBit.toNat + left ≤ 128) :
    ∃ matched, matchRest ip pattern left ipBit = .ok matched ∧
      ∀ ipBit', matched = some ipBit' → ipBit'.toNat = ipBit.toNat + left := by
  induction left generalizing ipBit with
  | zero =>
    refine ⟨some ipBit, rfl, ?_⟩
    intro ipBit' same
    cases same
    rfl
  | succ left ih =>
    obtain ⟨bit, consumed, advanced⟩ := consumeBitBE_of_lt address (show ipBit.toNat < 128 by omega)
    rw [matchRest, consumed]
    dsimp only [bind, Except.bind]
    split
    · exact ⟨none, rfl, nofun⟩
    · obtain ⟨matched, ran, ended⟩ := ih (show (ipBit + 1).toNat + left ≤ 128 by omega)
      refine ⟨matched, ran, ?_⟩
      intro ipBit' same
      rw [ended ipBit' same]
      omega

end Address

/-! ## Values of arguments -/

theorem toNat_one_shiftLeft {count : Nat} (small : count < 32) :
    ((1 : UInt32) <<< UInt32.ofNat count).toNat = 2 ^ count := by
  have power : 2 ^ count < 2 ^ 32 := Nat.pow_lt_pow_right (by decide) small
  rw [UInt32.toNat_shiftLeft, UInt32.toNat_ofNat_of_lt' (show count < 2 ^ 32 by omega),
    Nat.mod_eq_of_lt small, UInt32.toNat_one, Nat.one_shiftLeft, Nat.mod_eq_of_lt power]

theorem lt_of_two_pow_le {count : Nat} (fits : 2 ^ count < 2 ^ 32) : count < 32 :=
  (Nat.pow_lt_pow_iff_right (by decide)).mp fits

variable {val decoded : UInt32}

theorem decodeMantissa_ge {data : List UInt8} {left : Nat} {bitpos ended : Nat}
    (fits : val.toNat + 2 ^ left ≤ 2 ^ 32)
    (ran : decodeMantissa data left val bitpos = .ok (decoded, ended)) :
    decoded = invalid ∨ val.toNat ≤ decoded.toNat := by
  induction left generalizing val bitpos with
  | zero =>
    cases ran
    exact .inr le_rfl
  | succ left ih =>
    rw [decodeMantissa] at ran
    split at ran
    · cases ran
      exact .inl rfl
    obtain ⟨⟨bit, further⟩, -, ran⟩ := Access.bind_eq_ok.mp ran
    rw [Nat.pow_succ] at fits
    have positive := Nat.two_pow_pos left
    have added : (val + if bit then 1 <<< UInt32.ofNat left else 0).toNat =
        val.toNat + if bit then 2 ^ left else 0 := by
      rw [UInt32.toNat_add]
      cases bit with
      | true =>
        rw [if_pos rfl, if_pos rfl, toNat_one_shiftLeft (lt_of_two_pow_le (by omega))]
        exact Nat.mod_eq_of_lt (by omega)
      | false => exact Nat.mod_eq_of_lt val.toNat_lt
    have room : (val + if bit then 1 <<< UInt32.ofNat left else 0).toNat + 2 ^ left ≤ 2 ^ 32 := by
      rw [added]
      split <;> omega
    rcases ih room ran with isInvalid | atLeast
    · exact .inl isInvalid
    · rw [added] at atLeast
      exact .inr (Nat.le_of_add_right_le atLeast)

theorem decodeClasses_ge {data : List UInt8} {sizes : List Nat}
    {bitpos ended : Nat} (fits : val.toNat + (sizes.map (2 ^ ·)).sum ≤ 2 ^ 32)
    (ran : decodeClasses data sizes val bitpos = .ok (decoded, ended)) :
    decoded = invalid ∨ val.toNat ≤ decoded.toNat := by
  induction sizes generalizing val bitpos with
  | nil =>
    cases ran
    exact .inl rfl
  | cons size sizes ih =>
    rw [List.map_cons, List.sum_cons] at fits
    cases sizes with
    | nil => exact decodeMantissa_ge (by omega) ran
    | cons following sizes =>
      rw [decodeClasses] at ran
      split at ran
      · cases ran
        exact .inl rfl
      obtain ⟨⟨bit, further⟩, -, ran⟩ := Access.bind_eq_ok.mp ran
      cases bit with
      | false => exact decodeMantissa_ge (by omega) ran
      | true =>
        have next : 1 ≤ ((following :: sizes).map (2 ^ ·)).sum := by
          rw [List.map_cons, List.sum_cons]
          have positive := Nat.two_pow_pos following
          omega
        have added : (val + 1 <<< UInt32.ofNat size).toNat = val.toNat + 2 ^ size := by
          rw [UInt32.toNat_add, toNat_one_shiftLeft (lt_of_two_pow_le (by omega))]
          exact Nat.mod_eq_of_lt (by omega)
        rcases ih (by omega) ran with isInvalid | atLeast
        · exact .inl isInvalid
        · rw [added] at atLeast
          exact .inr (Nat.le_of_add_right_le atLeast)

theorem DecodesAt.one_le_bitWidth {pos next : Nat} {pattern : UInt32}
    (decodes : DecodesAt asmap pos .matchBits pattern next) : 1 ≤ bitWidth pattern := by
  obtain ⟨middle, -, argued, valid⟩ := decodes
  have atLeast : 2 ≤ pattern.toNat := (decodeClasses_ge (by decide) argued).resolve_left valid
  have nonzero : pattern ≠ 0 := by
    intro zero
    rw [zero] at atLeast
    exact absurd atLeast (by decide)
  rw [bitWidth, if_neg nonzero]
  exact Nat.le_add_left 1 _

/-! ## The interpreter -/

/-- A state of the interpreter that the check comes to, with as many address bits left. -/
def Covered (asmap : List UInt8) (state : InterpretState) : Prop :=
  (∃ check : SanityState, (sanityLoop asmap).run check = .ok true ∧ check.pos = state.pos ∧
    check.bits + state.ipBit.toNat = 128 ∧ 0 ≤ check.bits) ∧
    InstructionAt asmap state.pos ∧ (state.defaultAsn = 0 ∨ IsAsn asmap state.defaultAsn)

section Rounds

variable {state : InterpretState} {pos : Nat}

theorem interpretRound_return {asn : UInt32}
    (decodes : DecodesAt asmap state.pos .returnAsn asn pos) :
    interpretRound asmap ip state = .ok (.inl asn) := by
  have advances := decodes.advances
  obtain ⟨middle, typed, argued, valid⟩ := decodes
  have inside : state.pos < asmap.length * 8 := by omega
  change decodeASN middle asmap = _ at argued
  simp only [interpretRound, if_pos inside, typed, interpretReturn, argued, bind, Except.bind,
    if_neg valid]
  rfl

theorem interpretRound_default {asn : UInt32}
    (decodes : DecodesAt asmap state.pos .defaultAsn asn pos) :
    interpretRound asmap ip state = .ok (.inr ⟨pos, state.ipBit, asn⟩) := by
  have advances := decodes.advances
  obtain ⟨middle, typed, argued, valid⟩ := decodes
  have inside : state.pos < asmap.length * 8 := by omega
  change decodeASN middle asmap = _ at argued
  simp only [interpretRound, if_pos inside, typed, interpretDefault, argued, bind, Except.bind,
    if_neg valid]
  rfl

variable (address : ip.length = 16)

include address

theorem interpretRound_jump {jump : UInt32} (decodes : DecodesAt asmap state.pos .jump jump pos)
    (bitsLeft : state.ipBit.toNat < 128) (inRange : pos + jump.toNat < asmap.length * 8) :
    ∃ target, (target = pos ∨ target = pos + jump.toNat) ∧
      interpretRound asmap ip state = .ok (.inr ⟨target, state.ipBit + 1, state.defaultAsn⟩) ∧
      (state.ipBit + 1).toNat = state.ipBit.toNat + 1 := by
  have advances := decodes.advances
  obtain ⟨middle, typed, argued, valid⟩ := decodes
  obtain ⟨bit, consumed, advanced⟩ := consumeBitBE_of_lt address bitsLeft
  have notEnd : state.ipBit ≠ UInt8.ofNat (ip.length * 8) := by
    intro atEnd
    rw [atEnd, address] at bitsLeft
    exact absurd bitsLeft (by decide)
  refine ⟨if bit then pos + jump.toNat else pos, ?_, ?_, advanced⟩
  · cases bit <;> simp
  · have inside : state.pos < asmap.length * 8 := by omega
    change decodeJump middle asmap = _ at argued
    simp only [interpretRound, if_pos inside, typed, interpretJump, argued, bind, Except.bind,
      if_neg valid, if_neg notEnd, consumed]
    rw [if_neg (by omega)]
    rfl

theorem interpretRound_match {pattern : UInt32}
    (decodes : DecodesAt asmap state.pos .matchBits pattern pos)
    (bitsLeft : state.ipBit.toNat + (bitWidth pattern - 1) ≤ 128) :
    interpretRound asmap ip state = .ok (.inl state.defaultAsn) ∨
      ∃ ipBit, interpretRound asmap ip state = .ok (.inr ⟨pos, ipBit, state.defaultAsn⟩) ∧
        ipBit.toNat = state.ipBit.toNat + (bitWidth pattern - 1) := by
  have advances := decodes.advances
  have positive := decodes.one_le_bitWidth
  obtain ⟨middle, typed, argued, valid⟩ := decodes
  obtain ⟨matched, ran, ended⟩ := matchRest_of_le address pattern bitsLeft
  have addressEnd : (UInt8.ofNat (ip.length * 8)).toNat = 128 := by
    rw [address]
    rfl
  have length : ((bitWidth pattern : Int) - 1).toNat = bitWidth pattern - 1 := by omega
  have enough : ¬((128 : Nat) : Int) - state.ipBit.toNat < (bitWidth pattern : Int) - 1 := by omega
  have inside : state.pos < asmap.length * 8 := by omega
  change decodeMatch middle asmap = _ at argued
  simp only [interpretRound, if_pos inside, typed, interpretMatch, argued, bind, Except.bind,
    if_neg valid, addressEnd, length, if_neg enough, ran]
  cases matched with
  | none => exact .inl rfl
  | some ipBit => exact .inr ⟨ipBit, rfl, ended ipBit rfl⟩

end Rounds

/-- One round from a covered state returns an AS number of the asmap or goes on in a covered
state. -/
theorem interpretRound_covered (short : asmap.length < 2 ^ 29) (address : ip.length = 16)
    {state : InterpretState} (covered : Covered asmap state) :
    ∃ outcome, interpretRound asmap ip state = .ok outcome ∧
      Sum.elim (fun asn => asn = 0 ∨ IsAsn asmap asn) (Covered asmap) outcome := by
  obtain ⟨⟨check, sane, samePos, sameBits, nonneg⟩, here, known⟩ := covered
  have landing {asn : UInt32} {pos : Nat} (decodes : DecodesAt asmap check.pos .returnAsn asn pos) :
      ∃ outcome, interpretRound asmap ip state = .ok outcome ∧
        Sum.elim (fun asn => asn = 0 ∨ IsAsn asmap asn) (Covered asmap) outcome := by
    rw [samePos] at decodes
    exact ⟨.inl asn, interpretRound_return decodes, .inr ⟨_, _, here, .inl decodes⟩⟩
  rcases sane_cases sane with ⟨asn, pos, decodes⟩ | ⟨next, step, saneNext⟩
  · exact landing decodes
  cases step with
  | land decodes => exact landing decodes
  | jump decodes inRange bitsLeft =>
    rename_i jump pos
    rw [samePos] at decodes
    have offset : (UInt32.ofNat (pos + jump.toNat)).toNat = pos + jump.toNat :=
      UInt32.toNat_ofNat_of_lt' (show pos + jump.toNat < 2 ^ 32 by omega)
    obtain ⟨had, saneTarget, target⟩ := sane_at_target saneNext [] rfl (here.next decodes)
    have targetInside := pos_lt_of_sane saneTarget
    rw [offset] at target
    rw [offset] at targetInside saneTarget
    obtain ⟨reached, atReached, ran, advanced⟩ :=
      interpretRound_jump address decodes (by omega) targetInside
    refine ⟨_, ran, ?_, ?_, known⟩
    · rcases atReached with rfl | rfl
      · exact ⟨_, saneNext, rfl, by dsimp only; omega, by dsimp only; omega⟩
      · exact ⟨_, saneTarget, rfl, by dsimp only; omega, by dsimp only; omega⟩
    · rcases atReached with rfl | rfl
      · exact here.next decodes
      · exact target
  | matchBits decodes bitsLeft =>
    rename_i pattern pos hadIncompleteMatch
    rw [samePos] at decodes
    have positive := decodes.one_le_bitWidth
    rcases interpretRound_match address decodes (by omega) with differs | ⟨ipBit, ran, advanced⟩
    · exact ⟨_, differs, known⟩
    · exact ⟨_, ran, ⟨_, saneNext, rfl, by dsimp only; omega, by dsimp only; omega⟩,
        here.next decodes, known⟩
  | defaultAsn decodes =>
    rw [samePos] at decodes
    exact ⟨_, interpretRound_default decodes, ⟨_, saneNext, rfl, sameBits, nonneg⟩,
      here.next decodes, .inr ⟨_, _, here, .inr decodes⟩⟩

/-- A lookup in an asmap that passes the check returns. -/
theorem interpret_of_sanityCheckAsmap (short : asmap.length < 2 ^ 29) (address : ip.length = 16)
    (sane : sanityCheckAsmap asmap 128 = .ok true) :
    ∃ asn, interpret asmap ip = .ok asn ∧ (asn = 0 ∨ IsAsn asmap asn) := by
  have initial : Covered asmap {} := ⟨⟨_, sane, rfl, rfl, by decide⟩, .start, .inl rfl⟩
  exact MeasuredLoop.run_spec (fun state covered => interpretRound_covered short address covered)
    initial

/-- An asmap with a jump, a match and two returns. -/
theorem interpret_of_sanityCheckAsmap_jumpAndMatch :
    sanityCheckAsmap [1, 100, 255, 24, 175, 3] 128 = .ok true ∧
      ∃ asn, interpret [1, 100, 255, 24, 175, 3] (List.replicate 16 0x80) = .ok asn ∧
        (asn = 0 ∨ IsAsn [1, 100, 255, 24, 175, 3] asn) := by
  have sane : sanityCheckAsmap [1, 100, 255, 24, 175, 3] 128 = .ok true := by
    decide +kernel
  exact ⟨sane, interpret_of_sanityCheckAsmap (by decide) (by decide) sane⟩

end Asmap

end Champy
