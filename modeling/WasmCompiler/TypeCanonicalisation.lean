import Mathlib.Data.List.Find
import WasmCompiler.TypeSection

/-!
# Canonical Type Indices

What the type section does to the declared signatures: a reference is followed to the first
equal signature, so two indices are reduced to the same one if and only if their signatures are
equal, and an entry that is no reference gives back its parameters and results.

## Main results

* `exists_of_parse`: the section is the one for the signatures that the bytecode encodes.
* `getElem?_canonicalEntries`: which entries are references, and to which.
* `iterateParams_eq`, `iterateResults_eq`: what is iterated over.
* `parse_canonical`: the indices of a section that was parsed are canonical.
-/

namespace WasmCompiler

/-! ### Characters -/

/-- Comparing a string with itself. -/
theorem strncmpEqual_self (n : ℕ) (string : List UInt8) : strncmpEqual n string string = true := by
  induction string generalizing n with
  | nil => cases n <;> rfl
  | cons byte string ih =>
      cases n with
      | zero => rfl
      | succ n => simp [strncmpEqual, ih]

/-- Strings without a zero are compared as a whole. -/
theorem eq_of_strncmpEqual {string string' : List UInt8} (hlength : string'.length = string.length)
    (hzero : 0 ∉ string) (h : strncmpEqual string.length string string' = true) :
    string' = string := by
  induction string generalizing string' with
  | nil => exact List.length_eq_zero_iff.mp hlength
  | cons byte string ih =>
      cases string' with
      | nil => cases hlength
      | cons byte' string' =>
          have hne : byte ≠ 0 := fun heq => hzero (heq ▸ List.mem_cons_self)
          simp only [strncmpEqual, List.length_cons, Bool.and_eq_true, beq_iff_eq, hne,
            Bool.or_eq_true, false_or] at h
          obtain ⟨rfl, hrest⟩ := h
          rw [ih (by simpa using hlength) (fun hmem => hzero (List.mem_cons_of_mem _ hmem)) hrest]

/-- A type is its machine type's character read back. -/
@[simp] theorem fromSignatureType_character (type : WasmType) :
    fromSignatureType type.character = some type.machineType := by
  cases type <;> decide

/-- No type has a character with another meaning. -/
theorem character_ne (type : WasmType) :
    type.character ≠ SignatureType.paramStart ∧ type.character ≠ SignatureType.paramEnd ∧
      type.character ≠ SignatureType.forward ∧ type.character ≠ 0 := by
  cases type <;> decide

/-- Different types have different characters. -/
theorem character_injective : Function.Injective WasmType.character := by
  intro type type' h
  cases type <;> cases type' <;> first | rfl | exact absurd h (by decide)

/-- A byte that is valid is that of a type. -/
theorem exists_of_validateWasmType {type : UInt8} (h : validateWasmType type = .ok true) :
    ∃ wasmType : WasmType, type = wasmType.byte ∧ toSignatureType type = wasmType.character := by
  have hall : ∀ n : Fin 256, validateWasmType (UInt8.ofNat n.val) = .ok true →
      n.val = 0x7C ∨ n.val = 0x7D ∨ n.val = 0x7E ∨ n.val = 0x7F := by decide +kernel
  have hof : UInt8.ofNat type.toNat = type := UInt8.ofNat_toNat
  rcases hall ⟨type.toNat, type.toNat_lt⟩ (by rwa [hof]) with hn | hn | hn | hn
  · exact ⟨.f64, by rw [← hof]; simp only at hn; rw [hn]; decide⟩
  · exact ⟨.f32, by rw [← hof]; simp only at hn; rw [hn]; decide⟩
  · exact ⟨.i64, by rw [← hof]; simp only at hn; rw [hn]; decide⟩
  · exact ⟨.i32, by rw [← hof]; simp only at hn; rw [hn]; decide⟩

namespace FuncType

/-- No signature has a zero. -/
theorem zero_notMem_characters (type : FuncType) : 0 ∉ type.characters := by
  have hne : ∀ types : List WasmType, 0 ∉ types.map WasmType.character := by
    intro types hmem
    obtain ⟨wasmType, -, heq⟩ := List.mem_map.mp hmem
    exact (character_ne wasmType).2.2.2 heq
  simp [characters, SignatureType.paramStart, SignatureType.paramEnd, hne type.params,
    hne type.results]

/-- The characters up to the end of the parameters determine them. -/
theorem eq_of_append_paramEnd {params params' : List WasmType} {rest rest' : List UInt8}
    (h : params.map WasmType.character ++ SignatureType.paramEnd :: rest =
      params'.map WasmType.character ++ SignatureType.paramEnd :: rest') :
    params = params' ∧ rest = rest' := by
  induction params generalizing params' with
  | nil =>
      cases params' with
      | nil => exact ⟨rfl, (List.cons.inj h).2⟩
      | cons type params' => exact absurd (List.cons.inj h).1.symm (character_ne type).2.1
  | cons type params ih =>
      cases params' with
      | nil => exact absurd (List.cons.inj h).1 (character_ne type).2.1
      | cons type' params' =>
          obtain ⟨hfirst, hrest⟩ := List.cons.inj h
          obtain ⟨rfl, rfl⟩ := ih hrest
          exact ⟨by rw [character_injective hfirst], rfl⟩

/-- Different signatures have different characters. -/
theorem characters_injective : Function.Injective FuncType.characters := by
  intro type type' h
  obtain ⟨params, results⟩ := type
  obtain ⟨params', results'⟩ := type'
  obtain ⟨rfl, hresults⟩ := eq_of_append_paramEnd (List.cons.inj h).2
  obtain rfl : results = results' := List.map_injective_iff.mpr character_injective hresults
  rfl

end FuncType

/-- An entry with the characters of a signature is that signature. -/
theorem TypeEntry.characters_eq_iff (entry : TypeEntry) (type : FuncType) :
    entry.characters = type.characters ↔ entry = .signature type := by
  cases entry with
  | signature type' =>
      refine ⟨fun h => ?_, fun h => by cases h; rfl⟩
      rw [FuncType.characters_injective h]
  | forward j =>
      refine ⟨fun h => absurd (List.cons.inj h).1 (by decide), nofun⟩

/-! ### Entries -/

/-- One more entry. -/
theorem entryOffsets_append (entries : List TypeEntry) (entry : TypeEntry) :
    entryOffsets (entries ++ [entry]) = entryOffsets entries ++ [(entryCharacters entries).length] := by
  rw [entryOffsets, List.length_append, List.length_singleton, List.range_succ, List.map_append,
    List.map_singleton, List.take_left' rfl]
  congr 1
  refine List.map_congr_left fun k hk => ?_
  rw [List.take_append_of_le_length (List.mem_range.mp hk).le]

/-- The characters of one more entry. -/
theorem entryCharacters_append (entries entries' : List TypeEntry) :
    entryCharacters (entries ++ entries') = entryCharacters entries ++ entryCharacters entries' :=
  List.flatMap_append

/-- There are as many offsets as entries. -/
@[simp] theorem length_entryOffsets (entries : List TypeEntry) :
    (entryOffsets entries).length = entries.length := by
  simp [entryOffsets]

/-- A section in which entries stand from the beginning on: their offsets, the one behind them,
and their characters. -/
structure TypeSection.Holds (s : TypeSection) (entries : List TypeEntry) : Prop where
  offsets : entryOffsets entries ++ [(entryCharacters entries).length] <+: s.typeOffsets
  types : entryCharacters entries <+: s.types

namespace TypeSection.Holds

variable {s : TypeSection} {entries : List TypeEntry}

/-- The characters around an entry. -/
theorem split (h : s.Holds entries) {i : ℕ} {entry : TypeEntry} (hentry : entries[i]? = some entry) :
    ∃ before after, s.types = before ++ (entry.characters ++ after) ∧
      s.typeOffsets.getD i 0 = before.length ∧
      s.typeOffsets.getD (i + 1) 0 = before.length + entry.characters.length := by
  obtain ⟨hi, rfl⟩ := List.getElem?_eq_some_iff.mp hentry
  obtain ⟨after, hafter⟩ := h.types
  obtain ⟨offsets, hoffsets⟩ := h.offsets
  have hsplit : entries = entries.take i ++ (entries[i] :: entries.drop (i + 1)) := by
    rw [List.getElem_cons_drop, List.take_append_drop]
  have hoffset : ∀ k ≤ entries.length,
      s.typeOffsets.getD k 0 = (entryCharacters (entries.take k)).length := by
    intro k hk
    rw [← hoffsets, List.getD_eq_getElem?_getD, List.append_assoc]
    rcases Nat.lt_or_eq_of_le hk with hlt | rfl
    · rw [List.getElem?_append_left (by simpa using hlt)]
      simp [entryOffsets, hlt]
    · rw [List.getElem?_append_right (by simp)]
      simp
  have hnext : entries.take (i + 1) = entries.take i ++ [entries[i]] := by
    rw [List.take_succ_eq_append_getElem]
  refine ⟨entryCharacters (entries.take i), entryCharacters (entries.drop (i + 1)) ++ after, ?_,
    hoffset i hi.le, ?_⟩
  · have hcharacters : entryCharacters entries = entryCharacters (entries.take i) ++
        (entries[i].characters ++ entryCharacters (entries.drop (i + 1))) := by
      conv_lhs => rw [hsplit, entryCharacters_append]
      simp only [entryCharacters, List.flatMap_cons]
    rw [← hafter, hcharacters, List.append_assoc, List.append_assoc]
  · rw [hoffset (i + 1) hi, hnext, entryCharacters_append]
    simp [entryCharacters]

/-- The characters of an entry. -/
theorem signatureBytes_eq (h : s.Holds entries) {i : ℕ} {entry : TypeEntry}
    (hentry : entries[i]? = some entry) : s.signatureBytes i = entry.characters := by
  obtain ⟨before, after, htypes, hstart, hend⟩ := h.split hentry
  rw [TypeSection.signatureBytes, htypes, hstart, hend, List.drop_left' rfl,
    Nat.add_sub_cancel_left, List.take_left' rfl]

/-- The search for an entry with the characters of a signature. -/
theorem findMatching_eq (h : s.Holds entries) (type : FuncType) :
    s.findMatching entries.length type.characters =
      (List.range entries.length).find? fun j => entries[j]? = some (.signature type) := by
  rw [TypeSection.findMatching]
  have hcongr : ∀ j ∈ List.range entries.length,
      ((s.typeOffsets.getD (j + 1) 0 - s.typeOffsets.getD j 0 == type.characters.length) &&
        strncmpEqual type.characters.length type.characters (s.signatureBytes j)) =
      decide (entries[j]? = some (.signature type)) := by
    intro j hj
    obtain ⟨entry, hentry⟩ : ∃ entry, entries[j]? = some entry :=
      ⟨_, List.getElem?_eq_getElem (List.mem_range.mp hj)⟩
    obtain ⟨before, after, -, hstart, hend⟩ := h.split hentry
    rw [h.signatureBytes_eq hentry, hstart, hend, Nat.add_sub_cancel_left, hentry,
      Bool.eq_iff_iff, decide_eq_true_iff, Bool.and_eq_true, beq_iff_eq, Option.some.injEq,
      ← TypeEntry.characters_eq_iff]
    constructor
    · rintro ⟨hlength, hequal⟩
      exact eq_of_strncmpEqual hlength type.zero_notMem_characters hequal
    · intro heq
      rw [heq]
      exact ⟨rfl, strncmpEqual_self _ _⟩
  exact List.find?_congr hcongr

end TypeSection.Holds

/-- An entry behind those that are there. -/
theorem TypeSection.holds_ofEntries (numTypes : ℕ) (entries : List TypeEntry)
    (characters : List UInt8) :
    TypeSection.Holds ⟨numTypes, entryOffsets entries ++ [(entryCharacters entries).length],
      entryCharacters entries ++ characters⟩ entries :=
  ⟨List.prefix_rfl, List.prefix_append _ _⟩

/-! ### What is parsed -/

namespace TypeSection

/-- Writing appends. -/
theorem eq_of_write {position : ℕ} {types bytes types' : List UInt8}
    (h : write position types bytes = .ok types') : types' = types ++ bytes := by
  rw [write] at h
  split at h
  · cases h
  · exact (Except.ok.inj h).symm

/-- Types that were read. -/
theorem exists_of_readValueTypes {position : ℕ} {invalid : ParseError} {count : ℕ} :
    ∀ {types types' : List UInt8} {reader reader' : BytecodeReader},
      readValueTypes position invalid count types reader = .ok (types', reader') →
      ∃ wasmTypes : List WasmType, wasmTypes.length = count ∧
        reader.remaining = wasmTypes.map WasmType.byte ++ reader'.remaining ∧
        types' = types ++ wasmTypes.map WasmType.character := by
  induction count with
  | zero =>
      intro types types' reader reader' h
      cases h
      exact ⟨[], rfl, rfl, (List.append_nil _).symm⟩
  | succ count ih =>
      intro types types' reader reader' h
      rw [readValueTypes] at h
      obtain ⟨⟨type, reader₁⟩, hbyte, h⟩ := exists_of_bind_ok h
      obtain ⟨valid, hvalid, h⟩ := exists_of_bind_ok h
      cases valid with
      | false => cases h
      | true =>
          obtain ⟨types₁, hwrite, h⟩ := exists_of_bind_ok h
          obtain ⟨wasmTypes, hlength, hremaining, rfl⟩ := ih h
          obtain ⟨wasmType, rfl, hcharacter⟩ := exists_of_validateWasmType hvalid
          rw [eq_of_write hwrite, hcharacter]
          refine ⟨wasmType :: wasmTypes, by rw [List.length_cons, hlength], ?_, ?_⟩
          · rw [(BytecodeReader.remaining_of_readByte hbyte).1, hremaining, List.map_cons,
              List.cons_append]
          · rw [List.append_assoc, List.map_cons, List.singleton_append]

/-- A vector of types that was read. -/
theorem exists_encodesTypes {position : ℕ} {invalid : ParseError} {count : UInt32}
    {types types' : List UInt8} {reader reader₁ reader' : BytecodeReader}
    (hcount : reader.readUInt32 = .ok (count, reader₁))
    (h : readValueTypes position invalid count.toNat types reader₁ = .ok (types', reader')) :
    ∃ bytes wasmTypes, EncodesTypes bytes wasmTypes ∧
      reader.remaining = bytes ++ reader'.remaining ∧
      types' = types ++ wasmTypes.map WasmType.character := by
  obtain ⟨encoding, rest, hremaining, hencoding, rfl⟩ :=
    BytecodeReader.encoding_of_readUInt32 hcount
  obtain ⟨wasmTypes, hlength, hrest, htypes⟩ := exists_of_readValueTypes h
  refine ⟨encoding ++ wasmTypes.map WasmType.byte, wasmTypes, ⟨encoding, ?_, rfl⟩, ?_, htypes⟩
  · rwa [hlength]
  · rw [hremaining, List.append_assoc, ← hrest]

/-- One more entry. -/
theorem ofEntries_append (numTypes : ℕ) (entries : List TypeEntry) (entry : TypeEntry) :
    ofEntries numTypes (entries ++ [entry]) =
      ⟨numTypes, entryOffsets entries ++ [(entryCharacters entries).length],
        entryCharacters entries ++ entry.characters⟩ := by
  rw [ofEntries, entryOffsets_append, entryCharacters_append]
  simp [entryCharacters]

/-- A signature that was parsed becomes the entry for it. -/
theorem exists_of_parseSignature {position numTypes : ℕ} {entries : List TypeEntry}
    {reader reader' : BytecodeReader} {s : TypeSection}
    (h : parseSignature position entries.length (ofEntries numTypes entries) reader =
      .ok (s, reader')) :
    ∃ bytes type, EncodesSignature bytes type ∧ reader.remaining = bytes ++ reader'.remaining ∧
      s = ofEntries numTypes (entries ++ [canonicalEntry entries type]) := by
  rw [parseSignature] at h
  obtain ⟨⟨typeType, reader₁⟩, hbyte, h⟩ := exists_of_bind_ok h
  obtain ⟨htypeType, h⟩ := of_ite_throw_eq_ok h
  obtain rfl : typeType = 0x60 := not_not.mp htypeType
  obtain ⟨types₁, hstart, h⟩ := exists_of_bind_ok h
  obtain ⟨⟨numParams, reader₂⟩, hnumParams, h⟩ := exists_of_bind_ok h
  obtain ⟨-, h⟩ := of_ite_throw_eq_ok h
  obtain ⟨⟨types₂, reader₃⟩, hparams, h⟩ := exists_of_bind_ok h
  obtain ⟨types₃, hend, h⟩ := exists_of_bind_ok h
  obtain ⟨⟨numResults, reader₄⟩, hnumResults, h⟩ := exists_of_bind_ok h
  obtain ⟨-, h⟩ := of_ite_throw_eq_ok h
  obtain ⟨⟨types₄, reader₅⟩, hresults, h⟩ := exists_of_bind_ok h
  obtain ⟨paramBytes, params, hencParams, hremParams, rfl⟩ :=
    exists_encodesTypes hnumParams hparams
  obtain ⟨resultBytes, results, hencResults, hremResults, rfl⟩ :=
    exists_encodesTypes hnumResults hresults
  obtain rfl := eq_of_write hstart
  obtain rfl := eq_of_write hend
  have hcharacters : (ofEntries numTypes entries).types ++ [SignatureType.paramStart] ++
      params.map WasmType.character ++ [SignatureType.paramEnd] ++
        results.map WasmType.character =
      entryCharacters entries ++ FuncType.characters ⟨params, results⟩ := by
    simp [ofEntries, FuncType.characters]
  simp only [hcharacters] at h
  have hfind := (holds_ofEntries numTypes entries
    (FuncType.characters ⟨params, results⟩)).findMatching_eq ⟨params, results⟩
  have hremaining : reader.remaining =
      0x60 :: (paramBytes ++ resultBytes) ++ reader₅.remaining := by
    rw [(BytecodeReader.remaining_of_readByte hbyte).1, hremParams, hremResults,
      List.cons_append, List.append_assoc]
  have hentries : reader' = reader₅ ∧
      s = ofEntries numTypes (entries ++ [canonicalEntry entries ⟨params, results⟩]) := by
    simp only [ofEntries, List.drop_left, List.take_left, hfind] at h
    rw [ofEntries_append]
    split at h
    · rename_i j hmatch
      obtain ⟨types₅, hforward, hmap⟩ := exists_of_map_ok h
      obtain rfl := eq_of_write hforward
      cases hmap
      rw [canonicalEntry, hmatch]
      exact ⟨rfl, rfl⟩
    · rename_i hmatch
      cases h
      rw [canonicalEntry, hmatch]
      exact ⟨rfl, rfl⟩
  obtain ⟨rfl, rfl⟩ := hentries
  exact ⟨0x60 :: (paramBytes ++ resultBytes), ⟨params, results⟩,
    ⟨paramBytes, resultBytes, hencParams, hencResults, rfl⟩, hremaining, rfl⟩

/-- The signatures of a section that were parsed. -/
theorem exists_of_parseSignatures {position numTypes count : ℕ} :
    ∀ (entries : List TypeEntry) {reader reader' : BytecodeReader} {s : TypeSection},
      parseSignatures position count entries.length (ofEntries numTypes entries) reader =
        .ok (s, reader') →
      ∃ bytes declared, EncodesSignatures bytes declared ∧ declared.length = count ∧
        reader.remaining = bytes ++ reader'.remaining ∧
        s = ofEntries numTypes
          (declared.foldl (fun entries type => entries ++ [canonicalEntry entries type])
            entries) := by
  induction count with
  | zero =>
      intro entries reader reader' s h
      cases h
      exact ⟨[], [], .nil, rfl, rfl, rfl⟩
  | succ count ih =>
      intro entries reader reader' s h
      obtain ⟨⟨s₁, reader₁⟩, hfirst, h⟩ := exists_of_bind_ok h
      obtain ⟨bytes, type, hencodes, hremaining, rfl⟩ := exists_of_parseSignature hfirst
      rw [show entries.length + 1 = (entries ++ [canonicalEntry entries type]).length by simp] at h
      obtain ⟨rest, declared, hrest, hlength, hremaining', rfl⟩ := ih _ h
      refine ⟨bytes ++ rest, type :: declared, .cons hencodes hrest, ?_, ?_, rfl⟩
      · rw [List.length_cons, hlength]
      · rw [hremaining, hremaining', List.append_assoc]

/-- The signatures of the blocks are entries without parameters. -/
theorem ofEntries_of_foldlM_writeBlockSignature {position numTypes : ℕ} {types : List FuncType}
    (hparams : ∀ type ∈ types, type.params = []) :
    ∀ {entries : List TypeEntry} {s : TypeSection},
      (types.map fun type => type.results.map WasmType.character).foldlM
          (writeBlockSignature position) (ofEntries numTypes entries) = .ok s →
      s = ofEntries numTypes (entries ++ types.map TypeEntry.signature) := by
  induction types with
  | nil =>
      intro entries s h
      cases h
      rw [List.map_nil, List.append_nil]
  | cons type types ih =>
      intro entries s h
      rw [List.map_cons, List.foldlM_cons] at h
      obtain ⟨s₁, hfirst, h⟩ := exists_of_bind_ok h
      obtain ⟨written, hwrite, rfl⟩ := exists_of_map_ok hfirst
      obtain rfl := eq_of_write hwrite
      have hcharacters : [SignatureType.paramStart, SignatureType.paramEnd] ++
          type.results.map WasmType.character = (TypeEntry.signature type).characters := by
        rw [TypeEntry.characters, FuncType.characters, hparams type List.mem_cons_self]
        rfl
      rw [hcharacters] at h
      have hrest := ih (fun type' hmem => hparams type' (List.mem_cons_of_mem _ hmem))
        ((congrArg (fun s => List.foldlM (writeBlockSignature position) s _)
          (ofEntries_append numTypes entries (.signature type))).trans h)
      rw [hrest, List.map_cons, List.append_assoc, List.singleton_append]

/-- A section that was parsed is the one for the signatures that its bytes encode. -/
theorem exists_of_parse {position : ℕ} {reader reader' : BytecodeReader} {s : TypeSection}
    (h : parse position reader = .ok (s, reader')) :
    ∃ bytes declared, EncodesTypeSection bytes declared ∧ declared.length ≤ 2 ^ 20 ∧
      reader.remaining = bytes ++ reader'.remaining ∧ s = ofDeclared declared := by
  rw [parse] at h
  obtain ⟨⟨numTypes, reader₁⟩, hcount, h⟩ := exists_of_bind_ok h
  obtain ⟨hlimit, h⟩ := of_ite_throw_eq_ok h
  obtain ⟨⟨s₁, reader₂⟩, hsignatures, h⟩ := exists_of_bind_ok h
  obtain ⟨s₂, hblocks, h⟩ := exists_of_map_ok h
  cases h
  obtain ⟨encoding, rest, hremaining, hencoding, rfl⟩ :=
    BytecodeReader.encoding_of_readUInt32 hcount
  obtain ⟨bytes, declared, hencodes, hlength, hrest, rfl⟩ :=
    exists_of_parseSignatures [] hsignatures
  have hblockSignatures : blockSignatures =
      blockTypes.map fun type => type.results.map WasmType.character := by decide
  rw [hblockSignatures] at hblocks
  obtain rfl := ofEntries_of_foldlM_writeBlockSignature (by decide) hblocks
  refine ⟨encoding ++ bytes, declared, ⟨encoding, bytes, ?_, hencodes, rfl⟩, ?_, ?_, ?_⟩
  · rwa [hlength]
  · rw [hlength]
    exact not_lt.mp hlimit
  · rw [hremaining, List.append_assoc, ← hrest]
  · rw [ofDeclared, hlength]
    rfl

end TypeSection

/-! ### References -/

/-- One more declared signature. -/
theorem canonicalEntries_append (declared : List FuncType) (type : FuncType) :
    canonicalEntries (declared ++ [type]) =
      canonicalEntries declared ++ [canonicalEntry (canonicalEntries declared) type] := by
  rw [canonicalEntries, List.foldl_append]
  rfl

/-- There is an entry for every declared signature. -/
@[simp] theorem length_canonicalEntries (declared : List FuncType) :
    (canonicalEntries declared).length = declared.length := by
  induction declared using List.reverseRecOn with
  | nil => rfl
  | append_singleton declared type ih =>
      rw [canonicalEntries_append, List.length_append, List.length_append, ih]
      rfl

/-- The entry of a declared signature: the first one that is equal is the signature, the others
refer to it. -/
theorem getElem?_canonicalEntries {declared : List FuncType} {i : ℕ} {type : FuncType}
    (htype : declared[i]? = some type) :
    (canonicalEntries declared)[i]? = some
      (if declared.idxOf type = i then .signature type else .forward (declared.idxOf type)) := by
  induction declared using List.reverseRecOn generalizing i type with
  | nil => cases htype
  | append_singleton declared last ih =>
      have hsignature : ∀ j type, (canonicalEntries declared)[j]? = some (.signature type) ↔
          type ∈ declared ∧ j = declared.idxOf type := by
        intro j type
        constructor
        · intro hentry
          have hj : j < declared.length := by
            simpa using (List.getElem?_eq_some_iff.mp hentry).1
          rw [ih (List.getElem?_eq_getElem hj), Option.some.injEq] at hentry
          split at hentry
          · rename_i hidx
            cases hentry
            exact ⟨List.getElem_mem hj, hidx.symm⟩
          · cases hentry
        · rintro ⟨hmem, rfl⟩
          rw [ih (List.getElem?_idxOf hmem), if_pos rfl]
      have hlast : canonicalEntry (canonicalEntries declared) last =
          if last ∈ declared then .forward (declared.idxOf last) else .signature last := by
        by_cases hmem : last ∈ declared
        · have hfind : (List.range (canonicalEntries declared).length).find?
              (fun j => (canonicalEntries declared)[j]? = some (.signature last)) =
                some (declared.idxOf last) := by
            rw [List.find?_range_eq_some]
            refine ⟨decide_eq_true ((hsignature _ _).mpr ⟨hmem, rfl⟩), ?_, fun j hj => ?_⟩
            · simpa using List.idxOf_lt_length_of_mem hmem
            · simpa [hsignature, hmem] using hj.ne
          rw [canonicalEntry, hfind, if_pos hmem]
        · have hfind : (List.range (canonicalEntries declared).length).find?
              (fun j => (canonicalEntries declared)[j]? = some (.signature last)) = none := by
            simp [hsignature, hmem]
          rw [canonicalEntry, hfind, if_neg hmem]
      rw [canonicalEntries_append]
      rcases Nat.lt_or_ge i declared.length with hi | hi
      · rw [List.getElem?_append_left hi] at htype
        rw [List.getElem?_append_left (by simpa using hi), ih htype,
          List.idxOf_append_of_mem (List.mem_of_getElem? htype)]
      · rw [List.getElem?_append_right hi] at htype
        obtain ⟨hi', rfl⟩ : i = declared.length ∧ last = type := by
          have hone : i - declared.length = 0 := by
            have := (List.getElem?_eq_some_iff.mp htype).1
            simp only [List.length_singleton] at this
            omega
          rw [hone] at htype
          exact ⟨by omega, by simpa using htype⟩
        subst hi'
        rw [List.getElem?_append_right (by simp), length_canonicalEntries, Nat.sub_self, hlast]
        by_cases hmem : last ∈ declared
        · have hne := (List.idxOf_lt_length_of_mem hmem).ne
          rw [List.idxOf_append_of_mem hmem, if_pos hmem, if_neg hne]
          rfl
        · rw [List.idxOf_append_of_notMem hmem, if_neg hmem]
          simp

/-! ### Iterating -/

namespace TypeSection

variable {visit : UInt8 → Option (List MachineType)} {visited : WasmType → List MachineType}
  {stop : UInt8}

/-- Going back over the characters of types, up to the one in front of them. -/
theorem scanBackward_append
    (hvisit : ∀ type : WasmType, type.character ≠ stop ∧ visit type.character = some (visited type))
    (before : List UInt8) {typeOffset : ℕ} (hoffset : typeOffset ≤ before.length + 1)
    (types : List WasmType) :
    ∀ after, scanBackward (before ++ stop :: (types.map WasmType.character ++ after)) typeOffset
      stop visit (before.length + 1 + types.length) =
        some (types.reverse.flatMap visited, before.length) := by
  induction types using List.reverseRecOn with
  | nil =>
      intro after
      rw [List.length_nil, Nat.add_zero, scanBackward, if_neg (not_lt.mpr hoffset),
        List.getElem?_append_right (Nat.le_refl _), Nat.sub_self]
      simp
  | append_singleton types type ih =>
      intro after
      have hcharacter : (before ++ stop :: ((types ++ [type]).map WasmType.character ++
          after))[before.length + 1 + types.length]? = some type.character := by
        rw [List.getElem?_append_right (by omega),
          show before.length + 1 + types.length - before.length = types.length + 1 by omega,
          List.getElem?_cons_succ, List.map_append, List.append_assoc,
          List.getElem?_append_right (by simp)]
        simp
      have hrest := ih (type.character :: after)
      rw [List.length_append, List.length_singleton, ← Nat.add_assoc, scanBackward,
        if_neg (by omega), hcharacter, Option.bind_eq_bind, Option.bind_some,
        if_neg (hvisit type).1, (hvisit type).2, List.map_append, List.append_assoc]
      simp only [Option.bind_eq_bind, Option.bind_some, List.map_singleton, List.singleton_append]
      rw [hrest]
      simp

/-- Going on over the characters of types, up to the one behind them. -/
theorem scanForward_append
    (hvisit : ∀ type : WasmType, type.character ≠ stop ∧ visit type.character = some (visited type))
    (types : List WasmType) :
    ∀ (before after : List UInt8) (count : ℕ), types.length < count →
      scanForward (before ++ (types.map WasmType.character ++ stop :: after)) stop visit count
        before.length = some (types.flatMap visited, before.length + types.length) := by
  induction types with
  | nil =>
      intro before after count hcount
      obtain ⟨count, rfl⟩ := Nat.exists_eq_succ_of_ne_zero hcount.ne_bot
      rw [scanForward, List.getElem?_append_right (Nat.le_refl _), Nat.sub_self]
      simp
  | cons type types ih =>
      intro before after count hcount
      obtain ⟨count, rfl⟩ := Nat.exists_eq_succ_of_ne_zero (Nat.ne_zero_of_lt hcount)
      have hrest := ih (before ++ [type.character]) after count (by simpa using hcount)
      rw [List.append_assoc, List.singleton_append, List.length_append, List.length_singleton]
        at hrest
      rw [scanForward, List.getElem?_append_right (Nat.le_refl _), Nat.sub_self, List.map_cons,
        List.cons_append, List.getElem?_cons_zero, Option.bind_eq_bind, Option.bind_some,
        if_neg (hvisit type).1, (hvisit type).2, Option.bind_eq_bind, Option.bind_some, hrest,
        Option.map_some, List.length_cons, List.flatMap_cons, Nat.add_assoc,
        Nat.add_comm 1 types.length]

/-- Types are passed over. -/
theorem skip_character (type : WasmType) :
    type.character ≠ SignatureType.paramEnd ∧ skip type.character = some [] :=
  ⟨(character_ne type).2.1, rfl⟩

/-- The callback gets the machine type of a type. -/
theorem callback_character (type : WasmType) :
    callback type.character = some [type.machineType] := by
  rw [callback, fromSignatureType_character, Option.map_some]

/-- The characters of types read one by one. -/
theorem mapM_fromSignatureType (types : List WasmType) :
    (types.map WasmType.character).mapM fromSignatureType =
      some (types.map WasmType.machineType) := by
  induction types with
  | nil => rfl
  | cons type types ih => simp [ih]

/-- The machine types one by one. -/
theorem flatMap_machineType (types : List WasmType) :
    (types.flatMap fun type => [type.machineType]) = types.map WasmType.machineType := by
  induction types with
  | nil => rfl
  | cons type types ih => rw [List.flatMap_cons, ih, List.map_cons, List.singleton_append]

/-- A list in one of both directions. -/
def inOrder (reverse : Bool) (types : List WasmType) : List MachineType :=
  if reverse then (types.map WasmType.machineType).reverse else types.map WasmType.machineType

namespace Holds

variable {s : TypeSection} {entries : List TypeEntry} {i : ℕ} {type : FuncType}

/-- Where the parts of a signature are. -/
theorem split_signature (h : s.Holds entries) (hentry : entries[i]? = some (.signature type)) :
    ∃ before after, s.types = before ++ SignatureType.paramStart ::
        (type.params.map WasmType.character ++ SignatureType.paramEnd ::
          (type.results.map WasmType.character ++ after)) ∧
      s.typeOffsets.getD i 0 = before.length ∧
      s.typeOffsets.getD (i + 1) 0 =
        before.length + (type.params.length + type.results.length + 2) := by
  obtain ⟨before, after, htypes, hstart, hend⟩ := h.split hentry
  refine ⟨before, after, ?_, hstart, ?_⟩
  · rw [htypes]
    simp [TypeEntry.characters, FuncType.characters]
  · rw [hend]
    simp [TypeEntry.characters, FuncType.characters]
    omega

/-- Iterating over the parameters of a signature. -/
theorem iterateParams_eq (h : s.Holds entries) (hentry : entries[i]? = some (.signature type))
    (reverse : Bool) :
    s.iterateParamsForSignature i reverse = some (inOrder reverse type.params) := by
  obtain ⟨before, after, htypes, hstart, hend⟩ := h.split_signature hentry
  rw [iterateParamsForSignature, htypes, hstart, hend]
  cases reverse with
  | true =>
      have hoffset : before.length ≤ (before ++ SignatureType.paramStart ::
          type.params.map WasmType.character).length + 1 := by
        rw [List.length_append]
        omega
      have hresults := scanBackward_append skip_character _ hoffset type.results after
      have hparams := scanBackward_append
        (fun type => ⟨(character_ne type).1, callback_character type⟩) before
        (Nat.le_succ before.length) type.params
        (SignatureType.paramEnd :: (type.results.map WasmType.character ++ after))
      simp only [List.length_append, List.length_cons, List.length_map, List.append_assoc,
        List.cons_append] at hresults
      rw [show before.length + (type.params.length + type.results.length + 2) =
        before.length + (type.params.length + 1) + 1 + type.results.length by omega]
      simp only [if_true, hresults, Option.bind_eq_bind, Option.bind_some]
      rw [show before.length + (type.params.length + 1) =
        before.length + 1 + type.params.length by omega, hparams]
      simp [inOrder, flatMap_machineType]
  | false =>
      have hparams := scanForward_append
        (fun type => ⟨(character_ne type).2.1, callback_character type⟩) type.params
        (before ++ [SignatureType.paramStart]) (type.results.map WasmType.character ++ after)
        (before.length + (type.params.length + type.results.length + 2) - before.length) (by omega)
      simp only [List.append_assoc, List.singleton_append, List.length_append,
        List.length_singleton] at hparams
      simp only [Bool.false_eq_true, if_false, List.getElem?_append_right (Nat.le_refl _),
        Nat.sub_self, List.getElem?_cons_zero, if_true, hparams, Option.bind_eq_bind,
        Option.bind_some]
      rw [if_pos (by omega)]
      simp [inOrder, flatMap_machineType]

/-- Iterating over the results of a signature. -/
theorem iterateResults_eq (h : s.Holds entries) (hentry : entries[i]? = some (.signature type))
    (reverse : Bool) :
    s.iterateResultsForSignature i reverse = some (inOrder reverse type.results) := by
  obtain ⟨before, after, htypes, hstart, hend⟩ := h.split_signature hentry
  rw [iterateResultsForSignature, htypes, hstart, hend]
  cases reverse with
  | true =>
      have hoffset : before.length ≤ (before ++ SignatureType.paramStart ::
          type.params.map WasmType.character).length + 1 := by
        rw [List.length_append]
        omega
      have hresults := scanBackward_append
        (fun type => ⟨(character_ne type).2.1, callback_character type⟩) _ hoffset type.results
        after
      simp only [List.length_append, List.length_cons, List.length_map, List.append_assoc,
        List.cons_append] at hresults
      rw [show before.length + (type.params.length + type.results.length + 2) =
        before.length + (type.params.length + 1) + 1 + type.results.length by omega]
      simp only [if_true, hresults]
      simp [inOrder, flatMap_machineType]
  | false =>
      have hparams := scanForward_append skip_character type.params
        (before ++ [SignatureType.paramStart]) (type.results.map WasmType.character ++ after)
        (before.length + (type.params.length + type.results.length + 2) - before.length) (by omega)
      simp only [List.append_assoc, List.singleton_append, List.length_append,
        List.length_singleton] at hparams
      have hresults : ((before ++ SignatureType.paramStart ::
          (type.params.map WasmType.character ++ SignatureType.paramEnd ::
            (type.results.map WasmType.character ++ after))).drop
              (before.length + 1 + type.params.length + 1)).take
            (before.length + (type.params.length + type.results.length + 2) -
              (before.length + 1 + type.params.length + 1)) =
          type.results.map WasmType.character := by
        rw [show before.length + (type.params.length + type.results.length + 2) -
            (before.length + 1 + type.params.length + 1) =
          (type.results.map WasmType.character).length by rw [List.length_map]; omega]
        rw [show before ++ SignatureType.paramStart ::
            (type.params.map WasmType.character ++ SignatureType.paramEnd ::
              (type.results.map WasmType.character ++ after)) =
          (before ++ SignatureType.paramStart :: type.params.map WasmType.character ++
            [SignatureType.paramEnd]) ++ (type.results.map WasmType.character ++ after) by simp]
        rw [List.drop_left' (by simp; omega), List.take_left]
      simp only [Bool.false_eq_true, if_false, List.getElem?_append_right (Nat.le_refl _),
        Nat.sub_self, List.getElem?_cons_zero, if_true, hparams, Option.bind_eq_bind,
        Option.bind_some, hresults, mapM_fromSignatureType]
      simp [inOrder]

end Holds

/-! ### Canonical indices -/

/-- The entry at an index is a reference. -/
def IsForward (s : TypeSection) (i : ℕ) : Prop :=
  s.types[s.typeOffsets.getD i 0]? = some SignatureType.forward

instance (s : TypeSection) (i : ℕ) : Decidable (s.IsForward i) :=
  inferInstanceAs (Decidable (_ = _))

/-- Iterating over an index in both directions gives the types of a signature. -/
structure Iterates (s : TypeSection) (i : ℕ) (type : FuncType) : Prop where
  params : ∀ reverse, s.iterateParamsForSignature i reverse = some (inOrder reverse type.params)
  results : ∀ reverse, s.iterateResultsForSignature i reverse = some (inOrder reverse type.results)

/-- The index of the first declared signature that is equal stands for a signature. -/
structure Canonical (s : TypeSection) (declared : List FuncType) : Prop where
  numTypes : s.numTypes = declared.length
  outOfBounds : ∀ i, declared.length ≤ i →
    s.reduceTypeIndex i = .error .functionTypeOutOfBounds
  /-- Two indices are reduced to the same one if and only if their signatures are equal. -/
  reduce_eq_iff : ∀ i j, i < declared.length → j < declared.length →
    (s.reduceTypeIndex i = s.reduceTypeIndex j ↔ declared[i]? = declared[j]?)
  /-- What an index is reduced to: it has the same signature, it is no reference, it is reduced
  to itself, and iterating over it gives the signature. -/
  reduce : ∀ i type, declared[i]? = some type → ∃ k, s.reduceTypeIndex i = .ok k ∧ k ≤ i ∧
    declared[k]? = some type ∧ ¬s.IsForward k ∧ s.reduceTypeIndex k = .ok k ∧ s.Iterates k type
  /-- Behind the declared ones stand the signatures of the blocks. -/
  blocks : ∀ i type, blockTypes[i]? = some type → s.Iterates (declared.length + i) type

/-- The entries of the section for declared signatures. -/
theorem holds_ofDeclared (declared : List FuncType) :
    (ofDeclared declared).Holds (canonicalEntries declared ++ blockTypes.map TypeEntry.signature) :=
  ⟨List.prefix_rfl, List.prefix_rfl⟩

namespace Holds

variable {s : TypeSection} {entries : List TypeEntry} {i : ℕ} {type : FuncType}

/-- Iterating over a signature. -/
theorem iterates (h : s.Holds entries) (hentry : entries[i]? = some (.signature type)) :
    s.Iterates i type :=
  ⟨h.iterateParams_eq hentry, h.iterateResults_eq hentry⟩

/-- A signature is no reference. -/
theorem not_isForward (h : s.Holds entries) (hentry : entries[i]? = some (.signature type)) :
    ¬s.IsForward i := by
  obtain ⟨before, after, htypes, hstart, -⟩ := h.split_signature hentry
  rw [IsForward, htypes, hstart, List.getElem?_append_right (Nat.le_refl _), Nat.sub_self,
    List.getElem?_cons_zero]
  decide

/-- A signature is reduced to itself. -/
theorem reduceTypeIndex_signature (h : s.Holds entries)
    (hentry : entries[i]? = some (.signature type)) (hi : i < s.numTypes) :
    s.reduceTypeIndex i = .ok i := by
  rw [reduceTypeIndex, if_neg (not_le.mpr hi)]
  exact if_neg (h.not_isForward hentry)

/-- A reference is followed. -/
theorem reduceTypeIndex_forward (h : s.Holds entries) {k : ℕ}
    (hentry : entries[i]? = some (.forward k)) (hi : i < s.numTypes) (hk : k < 2 ^ 32) :
    s.reduceTypeIndex i = .ok k := by
  obtain ⟨before, after, htypes, hstart, -⟩ := h.split hentry
  have hforward : s.types[s.typeOffsets.getD i 0]? = some SignatureType.forward := by
    rw [htypes, hstart, List.getElem?_append_right (Nat.le_refl _), Nat.sub_self]
    rfl
  have hreference : (s.types.drop (s.typeOffsets.getD i 0 + 1)).take 4 = bytesLE 4 k := by
    rw [htypes, hstart, ← List.drop_drop, List.drop_left]
    exact List.take_left' (length_bytesLE 4 k)
  rw [reduceTypeIndex, if_neg (not_le.mpr hi)]
  simp only [hforward, if_true, hreference]
  rw [ofBytesLE_bytesLE (show k < 256 ^ 4 by omega)]

end Holds

/-- Reducing a declared signature gives the first one that is equal. -/
theorem reduceTypeIndex_ofDeclared {declared : List FuncType} (hlimit : declared.length ≤ 2 ^ 20)
    {i : ℕ} {type : FuncType} (htype : declared[i]? = some type) :
    (ofDeclared declared).reduceTypeIndex i = .ok (declared.idxOf type) := by
  have hi : i < declared.length := (List.getElem?_eq_some_iff.mp htype).1
  have hentry : (canonicalEntries declared ++ blockTypes.map TypeEntry.signature)[i]? = some
      (if declared.idxOf type = i then .signature type
        else .forward (declared.idxOf type)) := by
    rw [List.getElem?_append_left (by simpa using hi), getElem?_canonicalEntries htype]
  by_cases hidx : declared.idxOf type = i
  · rw [if_pos hidx] at hentry
    rw [hidx]
    exact (holds_ofDeclared declared).reduceTypeIndex_signature hentry hi
  · rw [if_neg hidx] at hentry
    have hlt := List.idxOf_lt_length_of_mem (List.mem_of_getElem? htype)
    exact (holds_ofDeclared declared).reduceTypeIndex_forward hentry hi (by omega)

/-- The section for declared signatures has canonical indices. -/
theorem canonical_ofDeclared {declared : List FuncType} (hlimit : declared.length ≤ 2 ^ 20) :
    (ofDeclared declared).Canonical declared where
  numTypes := rfl
  outOfBounds _ hi := if_pos hi
  reduce_eq_iff i j hi hj := by
    rw [reduceTypeIndex_ofDeclared hlimit (List.getElem?_eq_getElem hi),
      reduceTypeIndex_ofDeclared hlimit (List.getElem?_eq_getElem hj), Except.ok.injEq,
      List.idxOf_inj (List.getElem_mem hi), List.getElem?_eq_getElem hi,
      List.getElem?_eq_getElem hj, Option.some.injEq]
  reduce i type htype := by
    have hmem : type ∈ declared := List.mem_of_getElem? htype
    have hfirst : declared[declared.idxOf type]? = some type := List.getElem?_idxOf hmem
    have hentry : (canonicalEntries declared ++ blockTypes.map TypeEntry.signature)[
        declared.idxOf type]? = some (.signature type) := by
      rw [List.getElem?_append_left (by simpa using List.idxOf_lt_length_of_mem hmem),
        getElem?_canonicalEntries hfirst, if_pos rfl]
    have hle : declared.idxOf type ≤ i := by
      obtain ⟨hi, rfl⟩ := List.getElem?_eq_some_iff.mp htype
      refine not_lt.mp fun hlt => ?_
      simpa using List.not_of_lt_findIdx hlt
    exact ⟨declared.idxOf type, reduceTypeIndex_ofDeclared hlimit htype, hle, hfirst,
      (holds_ofDeclared declared).not_isForward hentry, reduceTypeIndex_ofDeclared hlimit hfirst,
      (holds_ofDeclared declared).iterates hentry⟩
  blocks i type htype := by
    refine (holds_ofDeclared declared).iterates ?_
    rw [List.getElem?_append_right (by simp), length_canonicalEntries, Nat.add_sub_cancel_left,
      List.getElem?_map, htype, Option.map_some]

/-- What a type section is parsed to: its bytes encode signatures, for which it has canonical
indices. -/
theorem parse_canonical {position : ℕ} {reader reader' : BytecodeReader} {s : TypeSection}
    (h : parse position reader = .ok (s, reader')) :
    ∃ bytes declared, EncodesTypeSection bytes declared ∧
      reader.remaining = bytes ++ reader'.remaining ∧ s.Canonical declared := by
  obtain ⟨bytes, declared, hencodes, hlimit, hremaining, rfl⟩ := exists_of_parse h
  exact ⟨bytes, declared, hencodes, hremaining, canonical_ofDeclared hlimit⟩

/-- A section with the signature of one parameter twice. -/
def duplicateSignatures : List UInt8 := [0x02, 0x60, 0x01, 0x7F, 0x00, 0x60, 0x01, 0x7F, 0x00]

/-- The section is parsed. -/
theorem parse_canonical_duplicateSignatures :
    ∃ s bytes declared, parse 0 ⟨[], duplicateSignatures⟩ = .ok (s, ⟨duplicateSignatures, []⟩) ∧
      EncodesTypeSection bytes declared ∧ duplicateSignatures = bytes ++ [] ∧
        s.Canonical declared := by
  have hparse : parse 0 ⟨[], duplicateSignatures⟩ =
      .ok (ofDeclared [⟨[.i32], []⟩, ⟨[.i32], []⟩], ⟨duplicateSignatures, []⟩) := by
    decide +kernel
  obtain ⟨bytes, declared, hencodes, hremaining, hcanonical⟩ := parse_canonical hparse
  exact ⟨_, bytes, declared, hparse, hencodes, hremaining, hcanonical⟩

/-- The second signature is a reference, over which nothing can be iterated: the assertion about
the start of a signature fails. -/
theorem reference_not_iterates :
    ∃ s, parse 0 ⟨[], duplicateSignatures⟩ = .ok (s, ⟨duplicateSignatures, []⟩) ∧
      EncodesTypeSection duplicateSignatures [⟨[.i32], []⟩, ⟨[.i32], []⟩] ∧
      s.iterateParamsForSignature 1 false = none ∧ s.iterateResultsForSignature 1 false = none := by
  have hempty : EncodesTypes [0x00] [] := ⟨[0x00], .last (by decide) (by decide), rfl⟩
  have hparam : EncodesTypes [0x01, 0x7F] [.i32] := ⟨[0x01], .last (by decide) (by decide), rfl⟩
  have htype : EncodesSignature [0x60, 0x01, 0x7F, 0x00] ⟨[.i32], []⟩ :=
    ⟨_, _, hparam, hempty, rfl⟩
  refine ⟨ofDeclared [⟨[.i32], []⟩, ⟨[.i32], []⟩], by decide +kernel, ?_, by decide, by decide⟩
  exact ⟨[0x02], _, .last (by decide) (by decide), .cons htype (.cons htype .nil), rfl⟩

end TypeSection

end WasmCompiler
