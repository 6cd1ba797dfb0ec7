import Mathlib.Data.List.Induction

/-!
# Records that are Written Forwards and Read Backwards

A writer appends one record behind the other, a reader starts behind the last record and goes
back. If every record is read back, a loop over as many records as were written visits them in
the opposite order and ends where the first one starts. Outputs, cursors, records and errors
are arbitrary here: an output is whatever the writer extends, a cursor is an output.

## Main results

* `readBackward_of_readsBack`: the way back over the written records.
* `foldBackward_eq`: a loop with a body is a fold over the records on its way.
* `findBackward_of_searchable`: a search stops at the last record that matches.
-/

namespace WasmCompiler

section

variable {E Out Rec View State : Type}

/-! ### The way back -/

/-- The way back over a number of records: the records, and where it ends. -/
def readBackward (read : Out → Except E (View × Out)) :
    ℕ → Out → Except E (List View × Out)
  | 0, cursor => .ok ([], cursor)
  | n + 1, cursor =>
      read cursor >>= fun (record, cursor) =>
      readBackward read n cursor >>= fun (records, cursor) =>
      .ok (record :: records, cursor)

/-- A loop over a number of records that does something with each of them. -/
def foldBackward (read : Out → Except E (View × Out)) (body : State → View → Except E State) :
    ℕ → Out → State → Except E State
  | 0, _, state => .ok state
  | n + 1, cursor, state =>
      read cursor >>= fun (record, cursor) =>
      body state record >>= fun state => foldBackward read body n cursor state

/-- There are as many records on the way as asked for. -/
theorem length_of_readBackward {read : Out → Except E (View × Out)} {n : ℕ}
    {cursor cursor' : Out} {records : List View}
    (h : readBackward read n cursor = .ok (records, cursor')) : records.length = n := by
  induction n generalizing cursor records with
  | zero =>
      obtain ⟨rfl, -⟩ := Prod.mk.inj (Except.ok.inj h)
      rfl
  | succ n ih =>
      simp only [readBackward, bind, Except.bind] at h
      split at h
      · simp at h
      · split at h
        · simp at h
        · case _ rest hrest =>
            obtain ⟨rest, cursor1⟩ := rest
            obtain ⟨rfl, rfl⟩ := Prod.mk.inj (Except.ok.inj h)
            rw [List.length_cons, ih hrest]

/-- **A loop with a body** is a fold over the records on its way. -/
theorem foldBackward_eq {read : Out → Except E (View × Out)}
    (body : State → View → Except E State) {n : ℕ} {cursor cursor' : Out} {records : List View}
    (h : readBackward read n cursor = .ok (records, cursor')) (state : State) :
    foldBackward read body n cursor state = records.foldlM body state := by
  induction n generalizing cursor records state with
  | zero =>
      obtain ⟨rfl, -⟩ := Prod.mk.inj (Except.ok.inj h)
      rfl
  | succ n ih =>
      simp only [readBackward, bind, Except.bind] at h
      split at h
      · simp at h
      · case _ first hfirst =>
          split at h
          · simp at h
          · case _ rest hrest =>
              obtain ⟨rest, cursor1⟩ := rest
              obtain ⟨rfl, rfl⟩ := Prod.mk.inj (Except.ok.inj h)
              simp only [foldBackward, hfirst, bind, Except.bind, List.foldlM_cons]
              cases body state first.1 with
              | error e => rfl
              | ok state => exact ih hrest state

/-! ### Written records -/

/-- The record behind the others is written last. -/
theorem foldlM_snoc_ok {write : Out → Rec → Except E Out} {records : List Rec} {record : Rec}
    {output output' : Out} (h : (records ++ [record]).foldlM write output = .ok output') :
    ∃ output1, records.foldlM write output = .ok output1 ∧ write output1 record = .ok output' := by
  rw [List.foldlM_append] at h
  cases hfirst : records.foldlM write output with
  | error e => simp [hfirst, bind, Except.bind] at h
  | ok output1 =>
      refine ⟨output1, rfl, ?_⟩
      simp only [hfirst, bind, Except.bind, List.foldlM_cons, List.foldlM_nil] at h
      cases hlast : write output1 record with
      | error e => simp [hlast] at h
      | ok output2 => simpa [hlast, pure, Except.pure] using h

/-- What was appended last is read first, as far as the reader looks at it. -/
def ReadsBack (write : Out → Rec → Except E Out) (read : Out → Except E (View × Out))
    (view : Rec → View) (record : Rec) : Prop :=
  ∀ output output', write output record = .ok output' → read output' = .ok (view record, output)

/-- **The way back over the written records** visits them in the opposite order and ends where
the first one starts. -/
theorem readBackward_of_readsBack {write : Out → Rec → Except E Out}
    {read : Out → Except E (View × Out)} {view : Rec → View} {records : List Rec}
    (h : ∀ record ∈ records, ReadsBack write read view record) {output output' : Out}
    (hwrite : records.foldlM write output = .ok output') :
    readBackward read records.length output' =
      .ok ((records.map view).reverse, output) := by
  -- the record written last is the first one on the way back
  induction records using List.reverseRecOn generalizing output' with
  | nil =>
      obtain rfl := Except.ok.inj hwrite
      rfl
  | append_singleton records record ih =>
      obtain ⟨output1, hfirst, hlast⟩ := foldlM_snoc_ok hwrite
      have hrest := ih (fun r hr => h r (List.mem_append_left _ hr)) hfirst
      rw [List.length_append, List.length_singleton]
      simp only [readBackward, h record (by simp) _ _ hlast, hrest, bind, Except.bind]
      simp

/-! ### Searching -/

/-- Search the records for a key; `skip` goes over what is in front of the key. The result is
where the key of the record starts. -/
def findBackward (readKey : Out → Except E (View × Out)) (skip : Out → Except E Out)
    (isMatch : View → Bool) (notFound : E) : ℕ → Out → Except E Out
  | 0, _ => .error notFound
  | n + 1, cursor =>
      readKey cursor >>= fun (key, cursor) =>
      if isMatch key then .ok cursor
      else skip cursor >>= fun cursor => findBackward readKey skip isMatch notFound n cursor

/-- The record is written in two parts; the reader reads the second part and skips the first. -/
structure Searchable (write : Out → Rec → Except E Out) (readKey : Out → Except E (View × Out))
    (skip : Out → Except E Out) (key : Rec → View) (writeFront : Out → Rec → Except E Out)
    (record : Rec) : Prop where
  front : ∀ output output', write output record = .ok output' →
    ∃ keyStart, writeFront output record = .ok keyStart ∧
      readKey output' = .ok (key record, keyStart)
  skipped : ∀ output keyStart, writeFront output record = .ok keyStart →
    skip keyStart = .ok output

/-- **A search** among the written records stops where the key of the last record that matches
starts, and finds nothing exactly if no record matches. -/
theorem findBackward_of_searchable {write : Out → Rec → Except E Out}
    {readKey : Out → Except E (View × Out)} {skip : Out → Except E Out} {key : Rec → View}
    {writeFront : Out → Rec → Except E Out} (isMatch : View → Bool) (notFound : E)
    {records : List Rec}
    (h : ∀ record ∈ records, Searchable write readKey skip key writeFront record)
    {output output' : Out} (hwrite : records.foldlM write output = .ok output') :
    match records.reverse.find? fun record => isMatch (key record) with
    | none =>
        findBackward readKey skip isMatch notFound records.length output' = .error notFound
    | some found => ∃ front back before keyStart, records = front ++ found :: back ∧
        front.foldlM write output = .ok before ∧ writeFront before found = .ok keyStart ∧
        findBackward readKey skip isMatch notFound records.length output' = .ok keyStart := by
  induction records using List.reverseRecOn generalizing output' with
  | nil => rfl
  | append_singleton records record ih =>
      obtain ⟨output1, hfirst, hlast⟩ := foldlM_snoc_ok hwrite
      have hrecord := h record (by simp)
      obtain ⟨keyStart, hfront, hkey⟩ := hrecord.front _ _ hlast
      rw [List.reverse_append, List.reverse_singleton, List.singleton_append,
        List.length_append, List.length_singleton, List.find?_cons]
      simp only [findBackward, hkey, bind, Except.bind]
      cases hmatch : isMatch (key record) with
      | true => exact ⟨records, [], output1, keyStart, rfl, hfirst, hfront, by simp⟩
      | false =>
          simp only [Bool.false_eq_true, if_false, hrecord.skipped _ _ hfront]
          have hrest := ih (fun r hr => h r (List.mem_append_left _ hr)) hfirst
          cases hfound : records.reverse.find? fun record => isMatch (key record) with
          | none => simpa [hfound] using hrest
          | some found =>
              simp only [hfound] at hrest ⊢
              obtain ⟨front, back, before, keyStart', rfl, hrest⟩ := hrest
              exact ⟨front, back ++ [record], before, keyStart', by simp, hrest⟩

end

end WasmCompiler
