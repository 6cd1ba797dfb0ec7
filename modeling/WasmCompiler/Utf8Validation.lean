import WasmCompiler.ModuleSerialization

/-!
# UTF-8 Validation

`internal_validateUTF8` against the definition of names: a string is well-formed if it is the
concatenation of the encodings of Unicode scalar values. The loop reads one byte after another
and keeps how many continuation bytes are pending. Overlong forms, surrogates and too large code
points are found only when the last byte of a code point has been read.

## Main results

* `accepts_iff_wellFormed`: the loop accepts the well-formed strings.
* `internalValidateUTF8_iff`: it does so without reading outside of the string.
-/

namespace WasmCompiler

/-- A name: the encodings of Unicode scalar values. -/
def WellFormedUTF8 (string : List UInt8) : Prop :=
  ∃ name : List Char, string = name.flatMap String.utf8EncodeChar

/-- The loop of `internal_validateUTF8` over `remaining` bytes from the address `step` on. Reading
an address that is not readable is a fault. -/
def internalValidateUTF8Loop (memory : ℕ → Option UInt8) : ℕ → ℕ → UTF8State → Option Bool
  | 0, _, state => some (state.pendingContinuations == 0)
  | remaining + 1, step, state =>
      memory step >>= fun currentByte =>
      match state.next currentByte with
      | none => some false
      | some state => internalValidateUTF8Loop memory remaining (step + 1) state

/-- `internal_validateUTF8`. -/
def internalValidateUTF8 (memory : ℕ → Option UInt8) (start length : ℕ) : Option Bool :=
  internalValidateUTF8Loop memory length start {}

/-- A memory in which only a string can be read. -/
def stringMemory (start : ℕ) (string : List UInt8) (address : ℕ) : Option UInt8 :=
  if start ≤ address then string[address - start]? else none

namespace UTF8State

variable {state : UTF8State} {byte : UInt8}

/-! ### Steps -/

/-- The rest of a string is accepted. -/
def accepts (state : UTF8State) : List UInt8 → Bool
  | [] => state.pendingContinuations == 0
  | byte :: string =>
      match state.next byte with
      | none => false
      | some state => state.accepts string

/-- The number of leading ones says between which bounds a byte lies. -/
theorem leadingOnes_cases (byte : UInt8) :
    (byte.toNat < 0x80 ∧ leadingOnes byte = 0) ∨
      (0x80 ≤ byte.toNat ∧ byte.toNat < 0xC0 ∧ leadingOnes byte = 1) ∨
      (0xC0 ≤ byte.toNat ∧ byte.toNat < 0xE0 ∧ leadingOnes byte = 2) ∨
      (0xE0 ≤ byte.toNat ∧ byte.toNat < 0xF0 ∧ leadingOnes byte = 3) ∨
      (0xF0 ≤ byte.toNat ∧ byte.toNat < 0xF8 ∧ leadingOnes byte = 4) ∨
      (0xF8 ≤ byte.toNat ∧ leadingOnes byte = 5) := by
  simp only [leadingOnes, UInt8.lt_iff_toNat_lt, UInt8.reduceToNat]
  split_ifs <;> omega

/-- A byte of its own. -/
theorem next_ascii (hpending : state.pendingContinuations = 0) (hbyte : leadingOnes byte = 0) :
    state.next byte = some {} := by
  simp [next, hpending, hbyte]

/-- The first of several bytes. -/
theorem next_first (hpending : state.pendingContinuations = 0) {ones : ℕ}
    (hbyte : leadingOnes byte = ones) (hmore : 2 ≤ ones) (hle : ones ≤ 4) :
    state.next byte = some
      ⟨ones - 1, ones, byte.toNat % 2 ^ (7 - ones) * 2 ^ (6 * (ones - 1))⟩ := by
  have hzero : ones ≠ 0 := by omega
  have hone : ¬ (ones = 1 ∨ ones > 4) := by omega
  have hlast : ones - 1 ≠ 0 := by omega
  simp [next, hpending, hbyte, hzero, hone, hlast]

/-- A byte that no code point begins with. -/
theorem next_invalid (hpending : state.pendingContinuations = 0)
    (hbyte : leadingOnes byte = 1 ∨ leadingOnes byte > 4) : state.next byte = none := by
  have hzero : leadingOnes byte ≠ 0 := by omega
  simp [next, hpending, hzero, hbyte]

/-- A continuation byte. -/
theorem next_continuation {pending : ℕ} (hpending : state.pendingContinuations = pending + 1)
    (hbyte : leadingOnes byte = 1) :
    state.next byte =
      if pending = 0 ∧ !validCodepoint state.totalBytes (state.codepoint + byte.toNat % 2 ^ 6)
      then none
      else some { state with
        pendingContinuations := pending
        codepoint := state.codepoint + byte.toNat % 2 ^ 6 * 2 ^ (6 * pending) } := by
  obtain ⟨pendingContinuations, totalBytes, codepoint⟩ := state
  subst hpending
  by_cases hlast : pending = 0
  · simp [next, hbyte, hlast]
  · simp [next, hbyte, hlast]

/-- Any other byte where a continuation byte is pending. -/
theorem next_notContinuation (hpending : state.pendingContinuations ≠ 0)
    (hbyte : leadingOnes byte ≠ 1) : state.next byte = none := by
  simp [next, hpending, hbyte]

/-! ### Code points -/

/-- After a continuation byte the rest is accepted. -/
theorem accepts_continuation (pending : ℕ) (hpending : state.pendingContinuations = pending + 1)
    (hbyte : leadingOnes byte = 1)
    (hvalid : pending = 0 → validCodepoint state.totalBytes (state.codepoint + byte.toNat % 2 ^ 6))
    (string : List UInt8) :
    state.accepts (byte :: string) =
      accepts { state with
        pendingContinuations := pending
        codepoint := state.codepoint + byte.toNat % 2 ^ 6 * 2 ^ (6 * pending) } string := by
  have hok : ¬ (pending = 0 ∧
      (!validCodepoint state.totalBytes (state.codepoint + byte.toNat % 2 ^ 6)) = true) := by
    rintro ⟨hzero, hinvalid⟩
    rw [hvalid hzero] at hinvalid
    cases hinvalid
  rw [accepts, next_continuation hpending hbyte, if_neg hok]

/-- Where a continuation byte is pending, what is accepted begins with one. -/
theorem continuation_of_accepts (pending : ℕ)
    (hpending : state.pendingContinuations = pending + 1) {string : List UInt8}
    (haccepts : state.accepts string = true) :
    ∃ byte rest, string = byte :: rest ∧ 0x80 ≤ byte.toNat ∧ byte.toNat < 0xC0 ∧
      (pending = 0 → validCodepoint state.totalBytes (state.codepoint + byte.toNat % 2 ^ 6)) ∧
      accepts { state with
        pendingContinuations := pending
        codepoint := state.codepoint + byte.toNat % 2 ^ 6 * 2 ^ (6 * pending) } rest = true := by
  cases string with
  | nil => simp [accepts, hpending] at haccepts
  | cons byte rest =>
      by_cases hbyte : leadingOnes byte = 1
      · have hbounds : 0x80 ≤ byte.toNat ∧ byte.toNat < 0xC0 := by
          have hcases := leadingOnes_cases byte
          omega
        have hvalid : pending = 0 →
            validCodepoint state.totalBytes (state.codepoint + byte.toNat % 2 ^ 6) := by
          intro hzero
          by_contra hinvalid
          rw [accepts, next_continuation hpending hbyte, if_pos ⟨hzero, by simpa using hinvalid⟩]
            at haccepts
          cases haccepts
        rw [accepts_continuation pending hpending hbyte hvalid] at haccepts
        exact ⟨byte, rest, rfl, hbounds.1, hbounds.2, hvalid, haccepts⟩
      · rw [accepts, next_notContinuation (by omega) hbyte] at haccepts
        cases haccepts

/-- Between code points a state has no memory. -/
theorem accepts_of_pending_eq_zero (hpending : state.pendingContinuations = 0)
    (string : List UInt8) : state.accepts string = accepts {} string := by
  cases string with
  | nil => simp [accepts, hpending]
  | cons byte string =>
      rcases leadingOnes_cases byte with ⟨-, h⟩ | ⟨-, -, h⟩ | ⟨-, -, h⟩ | ⟨-, -, h⟩ | ⟨-, -, h⟩ | ⟨-, h⟩
      · rw [accepts, accepts, next_ascii hpending h, next_ascii rfl h]
      · rw [accepts, accepts, next_invalid hpending (Or.inl h), next_invalid rfl (Or.inl h)]
      · rw [accepts, accepts, next_first hpending h (by omega) (by omega),
          next_first rfl h (by omega) (by omega)]
      · rw [accepts, accepts, next_first hpending h (by omega) (by omega),
          next_first rfl h (by omega) (by omega)]
      · rw [accepts, accepts, next_first hpending h (by omega) (by omega),
          next_first rfl h (by omega) (by omega)]
      · rw [accepts, accepts, next_invalid hpending (Or.inr (by omega)),
          next_invalid rfl (Or.inr (by omega))]

/-- The code points that are accepted in two bytes; two bytes hold none above `0x7FF`. -/
theorem validCodepoint_two (codepoint : ℕ) :
    validCodepoint 2 codepoint = true ↔ 0x80 ≤ codepoint ∧ codepoint ≤ 0x7FFF := by
  rw [validCodepoint, decide_eq_true_iff]
  omega

/-- The code points that are accepted in three bytes. -/
theorem validCodepoint_three (codepoint : ℕ) :
    validCodepoint 3 codepoint = true ↔ 0x800 ≤ codepoint ∧ codepoint ≤ 0xFFFF ∧
      ¬ (0xD800 ≤ codepoint ∧ codepoint ≤ 0xDFFF) := by
  rw [validCodepoint, decide_eq_true_iff]

/-- The code points that are accepted in four bytes. -/
theorem validCodepoint_four (codepoint : ℕ) :
    validCodepoint 4 codepoint = true ↔ 0x10000 ≤ codepoint ∧ codepoint ≤ 0x10FFFF := by
  simp only [validCodepoint, decide_eq_true_iff]
  omega

/-- A scalar value by its number. -/
theorem exists_char (codepoint : ℕ) (hle : codepoint ≤ 0x10FFFF)
    (hsurrogate : ¬ (0xD800 ≤ codepoint ∧ codepoint ≤ 0xDFFF)) :
    ∃ c : Char, c.val.toNat = codepoint := by
  have hvalid : codepoint.isValidChar := by
    simp only [Nat.isValidChar]
    omega
  exact ⟨Char.ofNat codepoint, by rw [Char.ofNat, dif_pos hvalid]; rfl⟩

/-- The numbers of scalar values. -/
theorem char_bounds (c : Char) :
    c.val.toNat ≤ 0x10FFFF ∧ ¬ (0xD800 ≤ c.val.toNat ∧ c.val.toNat ≤ 0xDFFF) := by
  have hvalid := c.valid
  simp only [UInt32.isValidChar, Nat.isValidChar] at hvalid
  omega

/-- A continuation byte. -/
def Continuation (byte : UInt8) : Prop := 0x80 ≤ byte.toNat ∧ byte.toNat < 0xC0

/-- It has one leading one. -/
theorem Continuation.leadingOnes_eq (h : Continuation byte) : leadingOnes byte = 1 := by
  have hcases := leadingOnes_cases byte
  have hlow := h.1
  have hhigh := h.2
  omega

/-- The last byte of a code point. -/
theorem accepts_last {totalBytes codepoint : ℕ} (h : Continuation byte)
    (hvalid : validCodepoint totalBytes (codepoint + byte.toNat % 2 ^ 6) = true)
    (rest : List UInt8) :
    accepts ⟨1, totalBytes, codepoint⟩ (byte :: rest) = accepts {} rest := by
  rw [accepts_continuation 0 rfl h.leadingOnes_eq fun _ => hvalid]
  exact accepts_of_pending_eq_zero rfl rest

/-- A continuation byte that is not the last one. -/
theorem accepts_notLast (pending : ℕ) {totalBytes codepoint : ℕ} (h : Continuation byte)
    (rest : List UInt8) :
    accepts ⟨pending + 2, totalBytes, codepoint⟩ (byte :: rest) =
      accepts ⟨pending + 1, totalBytes,
        codepoint + byte.toNat % 2 ^ 6 * 2 ^ (6 * (pending + 1))⟩ rest :=
  accepts_continuation (pending + 1) rfl h.leadingOnes_eq nofun rest

/-- What is accepted where one continuation byte is pending. -/
theorem last_of_accepts {totalBytes codepoint : ℕ} {string : List UInt8}
    (haccepts : accepts ⟨1, totalBytes, codepoint⟩ string = true) :
    ∃ byte rest, string = byte :: rest ∧ Continuation byte ∧
      validCodepoint totalBytes (codepoint + byte.toNat % 2 ^ 6) = true ∧
      accepts {} rest = true := by
  obtain ⟨byte, rest, hstring, hlow, hhigh, hvalid, hrest⟩ :=
    continuation_of_accepts 0 rfl haccepts
  rw [accepts_of_pending_eq_zero rfl] at hrest
  exact ⟨byte, rest, hstring, ⟨hlow, hhigh⟩, hvalid rfl, hrest⟩

/-- What is accepted where more than one are pending. -/
theorem notLast_of_accepts {pending totalBytes codepoint : ℕ} {string : List UInt8}
    (haccepts : accepts ⟨pending + 2, totalBytes, codepoint⟩ string = true) :
    ∃ byte rest, string = byte :: rest ∧ Continuation byte ∧
      accepts ⟨pending + 1, totalBytes,
        codepoint + byte.toNat % 2 ^ 6 * 2 ^ (6 * (pending + 1))⟩ rest = true := by
  obtain ⟨byte, rest, hstring, hlow, hhigh, -, hrest⟩ :=
    continuation_of_accepts (pending + 1) rfl haccepts
  exact ⟨byte, rest, hstring, ⟨hlow, hhigh⟩, hrest⟩

/-- The first byte of a code point of several bytes. -/
theorem accepts_first (ones : ℕ) (hbyte : leadingOnes byte = ones) (hmore : 2 ≤ ones)
    (hle : ones ≤ 4) (rest : List UInt8) :
    accepts {} (byte :: rest) =
      accepts ⟨ones - 1, ones, byte.toNat % 2 ^ (7 - ones) * 2 ^ (6 * (ones - 1))⟩ rest := by
  rw [accepts, next_first rfl hbyte hmore hle]

/-- The encoding of a scalar value is read over. -/
theorem accepts_utf8EncodeChar (c : Char) (rest : List UInt8) :
    accepts {} (String.utf8EncodeChar c ++ rest) = accepts {} rest := by
  obtain ⟨hle, hsurrogate⟩ := char_bounds c
  have hbyte : ∀ n : ℕ, n < 256 → (UInt8.ofNat n).toNat = n := fun n hn => by
    rw [UInt8.toNat_ofNat', Nat.mod_eq_of_lt hn]
  have hcontinuation : ∀ n : ℕ, n < 64 → Continuation (UInt8.ofNat (n + 0x80)) := fun n hn => by
    rw [Continuation, hbyte _ (by omega)]
    omega
  rw [String.utf8EncodeChar]
  generalize c.val.toNat = v at hle hsurrogate
  split_ifs with h₁ h₂ h₃
  · have hone := leadingOnes_cases (UInt8.ofNat v)
    rw [hbyte _ (by omega)] at hone
    rw [List.singleton_append, accepts, next_ascii rfl (by omega)]
  · have hfirst := leadingOnes_cases (UInt8.ofNat (v / 64 % 0x20 + 0xC0))
    rw [hbyte _ (by omega)] at hfirst
    rw [List.cons_append, accepts_first 2 (by omega) (by omega) (by omega),
      List.singleton_append]
    refine accepts_last (hcontinuation _ (by omega)) ?_ rest
    rw [hbyte _ (by omega), hbyte _ (by omega), validCodepoint_two]
    omega
  · have hfirst := leadingOnes_cases (UInt8.ofNat (v / 4096 % 0x10 + 0xE0))
    rw [hbyte _ (by omega)] at hfirst
    rw [List.cons_append, accepts_first 3 (by omega) (by omega) (by omega),
      List.cons_append, accepts_notLast 0 (hcontinuation _ (by omega)),
      List.singleton_append]
    refine accepts_last (hcontinuation _ (by omega)) ?_ rest
    rw [hbyte _ (by omega), hbyte _ (by omega), hbyte _ (by omega), validCodepoint_three]
    omega
  · have hfirst := leadingOnes_cases (UInt8.ofNat (v / 262144 % 0x08 + 0xF0))
    rw [hbyte _ (by omega)] at hfirst
    rw [List.cons_append, accepts_first 4 (by omega) (by omega) (by omega),
      List.cons_append, accepts_notLast 1 (hcontinuation _ (by omega)),
      List.cons_append, accepts_notLast 0 (hcontinuation _ (by omega)),
      List.singleton_append]
    refine accepts_last (hcontinuation _ (by omega)) ?_ rest
    rw [hbyte _ (by omega), hbyte _ (by omega), hbyte _ (by omega), hbyte _ (by omega),
      validCodepoint_four]
    omega

/-- What is accepted begins with the encoding of a scalar value. -/
theorem exists_utf8EncodeChar {string : List UInt8} (hne : string ≠ [])
    (haccepts : accepts {} string = true) :
    ∃ c rest, string = String.utf8EncodeChar c ++ rest ∧ accepts {} rest = true := by
  obtain ⟨b₁, string, rfl⟩ := List.exists_cons_of_ne_nil hne
  have hbyte : ∀ (byte : UInt8) (n : ℕ), n = byte.toNat → byte = UInt8.ofNat n := by
    rintro byte n rfl
    exact (UInt8.ofNat_toNat).symm
  rcases leadingOnes_cases b₁ with ⟨hlt, h⟩ | ⟨-, -, h⟩ | ⟨hge, hlt, h⟩ | ⟨hge, hlt, h⟩ |
    ⟨hge, hlt, h⟩ | ⟨-, h⟩
  · rw [accepts, next_ascii rfl h] at haccepts
    obtain ⟨c, hc⟩ := exists_char b₁.toNat (by omega) (by omega)
    refine ⟨c, string, ?_, haccepts⟩
    rw [String.utf8EncodeChar, hc, if_pos (by omega), List.singleton_append,
      ← hbyte b₁ _ rfl]
  · rw [accepts, next_invalid rfl (Or.inl h)] at haccepts
    cases haccepts
  · rw [accepts_first _ h (by omega) (by omega)] at haccepts
    obtain ⟨b₂, rest, rfl, ⟨hlow₂, hhigh₂⟩, hvalid, hrest⟩ := last_of_accepts haccepts
    rw [validCodepoint_two] at hvalid
    obtain ⟨c, hc⟩ := exists_char (b₁.toNat % 2 ^ 5 * 2 ^ 6 + b₂.toNat % 2 ^ 6)
      (by omega) (by omega)
    refine ⟨c, rest, ?_, hrest⟩
    rw [String.utf8EncodeChar, hc, if_neg (by omega), if_pos (by omega), List.cons_append,
      List.singleton_append, ← hbyte b₁ _ (by omega), ← hbyte b₂ _ (by omega)]
  · rw [accepts_first _ h (by omega) (by omega)] at haccepts
    obtain ⟨b₂, string, rfl, ⟨hlow₂, hhigh₂⟩, haccepts⟩ := notLast_of_accepts haccepts
    obtain ⟨b₃, rest, rfl, ⟨hlow₃, hhigh₃⟩, hvalid, hrest⟩ := last_of_accepts haccepts
    rw [validCodepoint_three] at hvalid
    obtain ⟨c, hc⟩ := exists_char
      (b₁.toNat % 2 ^ 4 * 2 ^ 12 + b₂.toNat % 2 ^ 6 * 2 ^ 6 + b₃.toNat % 2 ^ 6)
      (by omega) (by omega)
    refine ⟨c, rest, ?_, hrest⟩
    rw [String.utf8EncodeChar, hc, if_neg (by omega), if_neg (by omega), if_pos (by omega),
      List.cons_append, List.cons_append, List.singleton_append, ← hbyte b₁ _ (by omega),
      ← hbyte b₂ _ (by omega), ← hbyte b₃ _ (by omega)]
  · rw [accepts_first _ h (by omega) (by omega)] at haccepts
    obtain ⟨b₂, string, rfl, ⟨hlow₂, hhigh₂⟩, haccepts⟩ := notLast_of_accepts haccepts
    obtain ⟨b₃, string, rfl, ⟨hlow₃, hhigh₃⟩, haccepts⟩ := notLast_of_accepts haccepts
    obtain ⟨b₄, rest, rfl, ⟨hlow₄, hhigh₄⟩, hvalid, hrest⟩ := last_of_accepts haccepts
    rw [validCodepoint_four] at hvalid
    obtain ⟨c, hc⟩ := exists_char
      (b₁.toNat % 2 ^ 3 * 2 ^ 18 + b₂.toNat % 2 ^ 6 * 2 ^ 12 + b₃.toNat % 2 ^ 6 * 2 ^ 6 +
        b₄.toNat % 2 ^ 6) (by omega) (by omega)
    refine ⟨c, rest, ?_, hrest⟩
    rw [String.utf8EncodeChar, hc, if_neg (by omega), if_neg (by omega), if_neg (by omega),
      List.cons_append, List.cons_append, List.cons_append, List.singleton_append,
      ← hbyte b₁ _ (by omega), ← hbyte b₂ _ (by omega), ← hbyte b₃ _ (by omega),
      ← hbyte b₄ _ (by omega)]
  · rw [accepts, next_invalid rfl (Or.inr (by omega))] at haccepts
    cases haccepts

/-! ### Strings -/

/-- The loop accepts the well-formed strings. -/
theorem accepts_iff_wellFormed (string : List UInt8) :
    accepts {} string = true ↔ WellFormedUTF8 string := by
  constructor
  · -- the rest behind a scalar value is shorter
    induction hlength : string.length using Nat.strong_induction_on generalizing string with
    | _ length ih =>
        intro haccepts
        rcases eq_or_ne string [] with rfl | hne
        · exact ⟨[], rfl⟩
        · obtain ⟨c, rest, rfl, hrest⟩ := exists_utf8EncodeChar hne haccepts
          have hpos := c.utf8Size_pos
          rw [List.length_append, String.length_utf8EncodeChar] at hlength
          obtain ⟨name, hname⟩ := ih rest.length (by omega) rest rfl hrest
          exact ⟨c :: name, by rw [List.flatMap_cons, hname]⟩
  · rintro ⟨name, rfl⟩
    induction name with
    | nil => rfl
    | cons c name ih => rw [List.flatMap_cons, accepts_utf8EncodeChar, ih]

/-- The loop over a memory in which the rest of the string stands. -/
theorem internalValidateUTF8Loop_eq (memory : ℕ → Option UInt8) (string : List UInt8) :
    ∀ (step : ℕ) (state : UTF8State), (∀ i, i < string.length → memory (step + i) = string[i]?) →
      internalValidateUTF8Loop memory string.length step state = some (state.accepts string) := by
  induction string with
  | nil => exact fun step state hread => rfl
  | cons byte string ih =>
      intro step state hread
      have hfirst : memory step = some byte := by simpa using hread 0 (by simp)
      have hrest : ∀ i, i < string.length → memory (step + 1 + i) = string[i]? := by
        intro i hi
        have hi' := hread (i + 1) (by simpa using hi)
        rwa [List.getElem?_cons_succ, ← Nat.add_assoc, Nat.add_right_comm] at hi'
      rw [List.length_cons, internalValidateUTF8Loop, hfirst, accepts]
      cases hnext : state.next byte with
      | none => simp [hnext]
      | some state' => simpa [hnext] using ih (step + 1) state' hrest

end UTF8State

/-- Where nothing but the string can be read, `internal_validateUTF8` ends without a fault, and
it accepts the string if and only if that is well-formed. -/
theorem internalValidateUTF8_iff (start : ℕ) (string : List UInt8) :
    ∃ accepted, internalValidateUTF8 (stringMemory start string) start string.length =
        some accepted ∧
      (accepted = true ↔ WellFormedUTF8 string) := by
  refine ⟨UTF8State.accepts {} string, ?_, UTF8State.accepts_iff_wellFormed string⟩
  refine UTF8State.internalValidateUTF8Loop_eq _ string start {} fun i hi => ?_
  rw [stringMemory, if_pos (Nat.le_add_right start i), Nat.add_sub_cancel_left]

/-- The bytes of a name, one behind the other. -/
theorem UTF8State.run_eq_accepts (string : List UInt8) (state : UTF8State) :
    (match string.foldlM UTF8State.next state with
      | some state => state.pendingContinuations == 0
      | none => false) = state.accepts string := by
  induction string generalizing state with
  | nil => rfl
  | cons byte string ih =>
      rw [List.foldlM_cons, UTF8State.accepts]
      cases hnext : state.next byte with
      | none => rfl
      | some state' => exact ih state'

/-- The check of names over the bytes of the name. -/
theorem validateUTF8_iff (string : List UInt8) :
    validateUTF8 string = true ↔ WellFormedUTF8 string := by
  rw [← UTF8State.accepts_iff_wellFormed, ← UTF8State.run_eq_accepts]
  rfl

end WasmCompiler
