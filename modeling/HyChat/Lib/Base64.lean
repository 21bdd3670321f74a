/-!
# Base64, decoded strictly

The decoder reads one character at a time and keeps the bits that have not made a byte yet. In
strict mode it refuses what is outside the alphabet, what follows the padding, and padding at the
very beginning; padding behind a group that is already complete it reads over.

What it accepts is therefore a run of letters and a run of padding, and the number of letters alone
says how many bytes come out (`a2bBase64_shape`).

The decoder is a state machine with the position in a group of four, the bits left over and the
padding seen so far. What it has accepted by a position is an invariant about these, and the length
of the output is a function of the number of letters read. Texts with line breaks or other
characters are outside of the strict mode and are refused.
-/

set_option autoImplicit false

namespace HyChat

namespace Lib.Base64

/-- The six bits a letter of the alphabet stands for -/
def value (c : Char) : Option UInt8 :=
  if 'A' ≤ c && c ≤ 'Z' then some (c.toNat - 65).toUInt8
  else if 'a' ≤ c && c ≤ 'z' then some (c.toNat - 71).toUInt8
  else if '0' ≤ c && c ≤ '9' then some (c.toNat + 4).toUInt8
  else if c = '+' then some 62
  else if c = '/' then some 63
  else none

/-- Where the decoder is: the place in the group of four, the bits left of the last letter, the
    padding counted so far, and the bytes. -/
structure State where
  quadPos : Nat
  leftchar : UInt8
  pads : Nat
  paddingStarted : Bool
  out : List UInt8

def State.start : State := ⟨0, 0, 0, false, []⟩

/-- A letter with these six bits is read. -/
def State.push (s : State) (bits : UInt8) : State :=
  match s.quadPos with
  | 0 => { s with quadPos := 1, leftchar := bits, pads := 0 }
  | 1 => { s with
      quadPos := 2
      leftchar := bits &&& 0x0f
      pads := 0
      out := s.out ++ [(s.leftchar <<< 2) ||| (bits >>> 4)] }
  | 2 => { s with
      quadPos := 3
      leftchar := bits &&& 0x03
      pads := 0
      out := s.out ++ [(s.leftchar <<< 4) ||| (bits >>> 2)] }
  | _ => { s with
      quadPos := 0
      leftchar := 0
      pads := 0
      out := s.out ++ [(s.leftchar <<< 6) ||| bits] }

/-- The loop of `a2b_base64` in strict mode -/
def State.read : State → List Char → Option (List UInt8)
  | s, [] => if s.quadPos = 0 then some s.out else none
  | s, c :: rest =>
      if c = '=' then
        let padded := { s with paddingStarted := true }
        if s.quadPos ≥ 2 then
          if s.quadPos + (s.pads + 1) ≥ 4 then
            -- the group is complete, and nothing may follow
            if rest.isEmpty then some s.out else none
          else State.read { padded with pads := s.pads + 1 } rest
        else padded.read rest
      else
        match value c with
        | none => none
        | some bits => if s.paddingStarted then none else (s.push bits).read rest

/-- `binascii.a2b_base64(data, strict_mode=True)` -/
def a2bBase64 (data : List Char) : Option (List UInt8) :=
  if data.head? = some '=' then none else State.start.read data

/-- `base64.b64decode(data, validate=True)` of a string, which has to be ASCII -/
def b64decode (data : String) : Option (List UInt8) :=
  if data.toList.all (·.toNat < 128) then a2bBase64 data.toList else none

/-! ## What is accepted -/

theorem State.push_quadPos {s : State} (h : s.quadPos < 4) (bits : UInt8) :
    (s.push bits).quadPos = (s.quadPos + 1) % 4 := by
  obtain ⟨quadPos, leftchar, pads, paddingStarted, out⟩ := s
  match quadPos, h with
  | 0, _ => rfl
  | 1, _ => rfl
  | 2, _ => rfl
  | 3, _ => exact (Nat.mod_self 4).symm

/-- Every letter of a group but the first completes a byte. -/
theorem State.push_out {s : State} (h : s.quadPos < 4) (bits : UInt8) :
    (s.push bits).out.length = s.out.length + if s.quadPos = 0 then 0 else 1 := by
  obtain ⟨quadPos, leftchar, pads, paddingStarted, out⟩ := s
  match quadPos, h with
  | 0, _ => rfl
  | 1, _ => exact List.length_append
  | 2, _ => exact List.length_append
  | 3, _ => exact List.length_append

@[simp] theorem State.push_pads (s : State) (bits : UInt8) : (s.push bits).pads = 0 := by
  unfold State.push
  split <;> rfl

@[simp] theorem State.push_paddingStarted (s : State) (bits : UInt8) :
    (s.push bits).paddingStarted = s.paddingStarted := by
  unfold State.push
  split <;> rfl

/-- Behind the first padding character there is only padding: what completes the group, or any
    amount of it when the group was complete before. -/
theorem State.read_padding {data : List Char} {s : State} {out : List UInt8}
    (hstarted : s.paddingStarted = true) (hopen : s.quadPos + s.pads < 4)
    (h : s.read data = some out) :
    ∃ k, data = List.replicate k '=' ∧ out = s.out ∧
      (s.quadPos = 0 ∨ 2 ≤ s.quadPos ∧ s.quadPos + s.pads + k = 4) := by
  induction data generalizing s with
  | nil =>
    simp only [State.read] at h
    split at h
    · rename_i hpos
      cases h
      exact ⟨0, rfl, rfl, .inl hpos⟩
    · cases h
  | cons c rest ih =>
    simp only [State.read] at h
    split at h
    · rename_i hc
      subst hc
      split at h
      · rename_i hpos
        split at h
        · rename_i hfull
          split at h
          · rename_i hrest
            cases h
            rw [List.isEmpty_iff] at hrest
            subst hrest
            exact ⟨1, rfl, rfl, .inr ⟨hpos, by omega⟩⟩
          · cases h
        · rename_i hfull
          obtain ⟨k, rfl, hout, hk⟩ := ih rfl (by simp only; omega) h
          refine ⟨k + 1, rfl, hout, .inr ⟨hpos, ?_⟩⟩
          simp only at hk
          omega
      · rename_i hpos
        obtain ⟨k, rfl, hout, hk⟩ := ih (s := { s with paddingStarted := true }) rfl hopen h
        refine ⟨k + 1, rfl, hout, .inl ?_⟩
        simp only at hk
        omega
    · cases hv : value c with
      | none =>
        rw [hv] at h
        cases h
      | some bits =>
        rw [hv] at h
        cases h

/-- How many bytes and how much padding belong to a number of letters. Only a group that is complete
    leaves the padding open. -/
structure Shape (letters padding bytes : Nat) : Prop where
  bytes : bytes = letters * 3 / 4
  padding : letters % 4 = 0 ∨ letters % 4 + padding = 4
  group : letters % 4 ≠ 1

/-- The decoder has read this many letters and no padding. -/
structure State.Read (s : State) (letters : Nat) : Prop where
  quadPos : s.quadPos = letters % 4
  pads : s.pads = 0
  paddingStarted : s.paddingStarted = false
  out : s.out.length = letters * 3 / 4

theorem State.Read.push {s : State} {letters : Nat} (h : s.Read letters) (bits : UInt8) :
    (s.push bits).Read (letters + 1) := by
  have hpos := h.quadPos
  have hout := h.out
  have hlt : s.quadPos < 4 := by omega
  refine ⟨?_, s.push_pads bits, ?_, ?_⟩
  · rw [State.push_quadPos hlt]
    omega
  · rw [State.push_paddingStarted]
    exact h.paddingStarted
  · rw [State.push_out hlt]
    have hplace : letters % 4 = 0 ∨ letters % 4 = 1 ∨ letters % 4 = 2 ∨ letters % 4 = 3 := by omega
    rcases hplace with hp | hp | hp | hp
    · rw [if_pos (hpos.trans hp)]
      omega
    all_goals
      rw [if_neg (by omega)]
      omega

/-- **What is accepted** from a state in which only letters have been read: more letters and
    padding. -/
theorem State.read_shape {data : List Char} {s : State} {out : List UInt8} {letters : Nat}
    (hs : s.Read letters) (h : s.read data = some out) :
    ∃ more padding, data = more ++ List.replicate padding '=' ∧ '=' ∉ more ∧
      Shape (letters + more.length) padding out.length := by
  induction data generalizing s letters with
  | nil =>
    simp only [State.read] at h
    split at h
    · rename_i hpos
      cases h
      have hletters := hs.quadPos
      rw [hpos] at hletters
      exact ⟨[], 0, rfl, List.not_mem_nil, hs.out, .inl hletters.symm, by simp; omega⟩
    · cases h
  | cons c rest ih =>
    have hpos := hs.quadPos
    have hpads := hs.pads
    have hletters : letters % 4 < 4 := Nat.mod_lt _ (by decide)
    simp only [State.read] at h
    split at h
    · -- the rest is padding
      rename_i hc
      subst hc
      have hshape : ∃ k, rest = List.replicate k '=' ∧ out = s.out ∧
          (s.quadPos = 0 ∨ 2 ≤ s.quadPos ∧ s.quadPos + (k + 1) = 4) := by
        split at h
        · rename_i hge
          split at h
          · split at h
            · rename_i hfull hrest
              cases h
              exact ⟨0, List.isEmpty_iff.mp hrest, rfl, .inr ⟨hge, by omega⟩⟩
            · cases h
          · rename_i hfull
            obtain ⟨k, hrest, hout, hk⟩ := State.read_padding rfl (by simp only; omega) h
            simp only at hout hk
            exact ⟨k, hrest, hout, hk.imp_right fun hk => ⟨hk.1, by omega⟩⟩
        · obtain ⟨k, hrest, hout, hk⟩ := State.read_padding rfl (by simp only; omega) h
          simp only at hout hk
          exact ⟨k, hrest, hout, hk.imp_right fun hk => ⟨hk.1, by omega⟩⟩
      obtain ⟨k, rfl, rfl, hk⟩ := hshape
      refine ⟨[], k + 1, rfl, List.not_mem_nil, hs.out, ?_, ?_⟩
      · simp only [List.length_nil, Nat.add_zero]
        omega
      · simp only [List.length_nil, Nat.add_zero]
        omega
    · rename_i hc
      cases hv : value c with
      | none =>
        rw [hv] at h
        cases h
      | some bits =>
        simp only [hv, hs.paddingStarted] at h
        obtain ⟨more, padding, rfl, hmore, hshape⟩ := ih (hs.push bits) h
        refine ⟨c :: more, padding, rfl, ?_, ?_⟩
        · intro hmem
          rcases List.mem_cons.mp hmem with hmem | hmem
          · exact hc hmem.symm
          · exact hmore hmem
        · rw [List.length_cons,
            show letters + (more.length + 1) = letters + 1 + more.length by omega]
          exact hshape

theorem State.start_read : State.start.Read 0 := ⟨rfl, rfl, rfl, rfl⟩

/-- **What the strict decoder accepts**: letters and padding, and the bytes are what the letters
    make. Padding alone is refused. -/
theorem a2bBase64_shape {data : List Char} {out : List UInt8} (h : a2bBase64 data = some out) :
    ∃ letters padding, data = letters ++ List.replicate padding '=' ∧ '=' ∉ letters ∧
      Shape letters.length padding out.length := by
  unfold a2bBase64 at h
  split at h
  · cases h
  · obtain ⟨letters, padding, hdata, hmem, hshape⟩ := State.read_shape State.start_read h
    rw [Nat.zero_add] at hshape
    exact ⟨letters, padding, hdata, hmem, hshape⟩

theorem b64decode_shape {data : String} {out : List UInt8} (h : b64decode data = some out) :
    ∃ letters padding, data.toList = letters ++ List.replicate padding '=' ∧ '=' ∉ letters ∧
      Shape letters.length padding out.length := by
  unfold b64decode at h
  split at h
  · exact a2bBase64_shape h
  · cases h

end Lib.Base64

end HyChat
