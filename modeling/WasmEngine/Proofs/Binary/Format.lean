import WasmEngine.Proofs.Binary.Windows

/-!
# The format of modules

A module is a header of eight bytes and a sequence of sections that covers the rest exactly
(`RawModule.Format`). A section is an identifier, a size and a payload of that size. What it holds is read in a window
that ends with the payload, and reading ends there as well (`Section.StandsAt`).

This is said of a whole list of sections, without an order in which they are read and without what was read so
far. The sections of a module are determined by its bytes (`RawModule.Format.unique`), and so is the module that
they add up to (`RawModule.ofSections`).
-/

namespace WasmEngine

/-! ### Vectors -/

namespace Decoder

variable {α : Type} {d : Decoder α} {c c' : Cursor}

/-- **Items that stand one behind the other**, each with its position. -/
inductive Reads (d : Decoder α) : Cursor → List (Nat × α) → Cursor → Prop
  | nil {c : Cursor} : Reads d c [] c
  | cons {c c₁ c₂ : Cursor} {a : α} {entries : List (Nat × α)} : d c = .ok a c₁ → Reads d c₁ entries c₂ →
    Reads d c ((c.pos, a) :: entries) c₂

/-- A vector: the number of its items, and the items behind it. -/
def ReadsVector (d : Decoder α) (c : Cursor) (entries : List (Nat × α)) (c' : Cursor) : Prop :=
  ∃ c₁, count c = .ok entries.length c₁ ∧ Reads d c₁ entries c'

theorem items_eq_ok {n : Nat} {as : List α} : items d n c = .ok as c' ↔
    ∃ entries, Reads d c entries c' ∧ entries.length = n ∧ entries.map (·.2) = as := by
  induction n generalizing c as with
  | zero =>
    rw [items, estate_pure_eq_ok]
    constructor
    · rintro ⟨rfl, rfl⟩
      exact ⟨[], .nil, rfl, rfl⟩
    · rintro ⟨entries, h, hlength, rfl⟩
      cases List.eq_nil_of_length_eq_zero hlength
      cases h
      exact ⟨rfl, rfl⟩
  | succ n ih =>
    rw [items]
    simp only [estate_bind_eq_ok, estate_pure_eq_ok]
    constructor
    · rintro ⟨a, c₁, ha, as, c₂, has, rfl, rfl⟩
      obtain ⟨entries, h, rfl, rfl⟩ := ih.mp has
      exact ⟨(c.pos, a) :: entries, .cons ha h, rfl, rfl⟩
    · rintro ⟨entries, h, hlength, rfl⟩
      cases h with
      | nil => nomatch hlength
      | @cons _ c₁ _ a entries ha h =>
        exact ⟨a, c₁, ha, _, c', ih.mpr ⟨entries, h, Nat.succ.inj hlength, rfl⟩, rfl, rfl⟩

theorem vector_eq_ok {as : List α} :
    vector d c = .ok as c' ↔ ∃ entries, ReadsVector d c entries c' ∧ entries.map (·.2) = as := by
  simp only [vector, estate_bind_eq_ok, items_eq_ok]
  constructor
  · rintro ⟨n, c₁, hn, entries, h, rfl, rfl⟩
    exact ⟨entries, ⟨c₁, hn, h⟩, rfl⟩
  · rintro ⟨entries, ⟨c₁, hn, h⟩, rfl⟩
    exact ⟨_, c₁, hn, entries, h, rfl, rfl⟩

theorem Reads.onward (hd : Keeps Cursor.Onward d) {entries : List (Nat × α)} (h : Reads d c entries c') :
    c.Onward c' := by
  induction h with
  | nil => exact refl_of _ _
  | cons ha _ ih => exact trans_of _ (onward_of_ok hd ha) ih

theorem Reads.mem (hd : Keeps Cursor.Onward d) {entries : List (Nat × α)} (h : Reads d c entries c')
    {x : Nat × α} (hx : x ∈ entries) : ∃ c₁ c₂, c.Onward c₁ ∧ d c₁ = .ok x.2 c₂ ∧ c₁.pos = x.1 := by
  induction h with
  | nil => nomatch hx
  | cons ha _ ih =>
    rcases List.mem_cons.mp hx with rfl | hx
    · exact ⟨_, _, refl_of _ _, ha, rfl⟩
    · obtain ⟨c₁, c₂, honward, hread⟩ := ih hx
      exact ⟨c₁, c₂, trans_of _ (onward_of_ok hd ha) honward, hread⟩

/-- Each entry of a vector was read at its position. -/
theorem ReadsVector.mem (hd : Keeps Cursor.Onward d) {entries : List (Nat × α)} (h : ReadsVector d c entries c')
    {x : Nat × α} (hx : x ∈ entries) : ∃ c₁ c₂, c.Onward c₁ ∧ d c₁ = .ok x.2 c₂ ∧ c₁.pos = x.1 := by
  obtain ⟨c₀, hn, hreads⟩ := h
  obtain ⟨c₁, c₂, honward, hread⟩ := hreads.mem hd hx
  exact ⟨c₁, c₂, trans_of _ (onward_of_ok keeps_count hn) honward, hread⟩

theorem Reads.unique {entries entries' : List (Nat × α)} {c'' : Cursor} (h : Reads d c entries c')
    (h' : Reads d c entries' c'') (hlength : entries.length = entries'.length) : entries = entries' ∧ c' = c'' := by
  induction h generalizing entries' with
  | nil =>
    cases List.eq_nil_of_length_eq_zero hlength.symm
    cases h'
    exact ⟨rfl, rfl⟩
  | cons ha _ ih =>
    cases h' with
    | nil => nomatch hlength
    | cons ha' h' =>
      cases ha.symm.trans ha'
      obtain ⟨rfl, rfl⟩ := ih h' (Nat.succ.inj hlength)
      exact ⟨rfl, rfl⟩

theorem ReadsVector.unique {entries entries' : List (Nat × α)} {c'' : Cursor} (h : ReadsVector d c entries c')
    (h' : ReadsVector d c entries' c'') : entries = entries' ∧ c' = c'' := by
  obtain ⟨c₁, hn, h⟩ := h
  obtain ⟨c₂, hn', h'⟩ := h'
  have hsame := hn.symm.trans hn'
  injection hsame with hlength hc
  subst hc
  exact h.unique h' hlength

/-- The names in what follows the name of a custom section. They count if that is `name` and they can be read. -/
def namesIn (title : String) (c : Cursor) : Option Names :=
  if title = "name" then
    match nameSection c with
    | .ok names _ => some names
    | .error _ _ => none
  else none

end Decoder

/-! ### Sections -/

/-- What a section holds. Entries of vectors stand behind their positions. -/
inductive Contents where
  | custom (custom : CustomSection) (names : Option Names)
  | types (entries : List (Nat × FuncType))
  | imports (entries : List (Nat × Import))
  | functions (entries : List (Nat × Nat))
  | tables (entries : List (Nat × TableType))
  | memories (entries : List (Nat × Limits))
  | globals (entries : List (Nat × GlobalDef))
  | exports (entries : List (Nat × Export))
  | start (func : Nat)
  | elements (entries : List (Nat × ElementSegment))
  | code (entries : List (Nat × FunctionBody))
  | data (entries : List (Nat × DataSegment))
  | dataCount (count : Nat)

namespace Contents

/-- The identifier of the section. -/
def id : Contents → UInt8
  | custom .. => 0
  | types _ => 1
  | imports _ => 2
  | functions _ => 3
  | tables _ => 4
  | memories _ => 5
  | globals _ => 6
  | exports _ => 7
  | start _ => 8
  | elements _ => 9
  | code _ => 10
  | data _ => 11
  | dataCount _ => 12

/-- The place of the section in the order of sections. Custom sections have none. -/
def rank? (contents : Contents) : Option Nat := sectionRank? contents.id

/-- **What stands in a window** up to some place. A custom section takes up all of it. -/
def StandsIn (features : Features) (limits : DecodeLimits) (w c : Cursor) : Contents → Prop
  | custom s names => ∃ c₁, Decoder.name w = .ok s.name c₁ ∧ s.offset = c₁.pos ∧ s.data = c₁.take c₁.remaining ∧
    names = Decoder.namesIn s.name c₁ ∧ c₁.advance c₁.remaining = c
  | types entries => Decoder.ReadsVector (Decoder.funcType features) w entries c
  | imports entries => Decoder.ReadsVector (Decoder.importEntry features) w entries c
  | functions entries => Decoder.ReadsVector Decoder.u32 w entries c
  | tables entries => Decoder.ReadsVector (Decoder.tableType features) w entries c
  | memories entries => Decoder.ReadsVector Decoder.limits w entries c
  | globals entries => Decoder.ReadsVector (Decoder.globalDef features) w entries c
  | exports entries => Decoder.ReadsVector Decoder.exportEntry w entries c
  | start func => Decoder.u32 w = .ok func c
  | elements entries => Decoder.ReadsVector (Decoder.elementSegment features) w entries c
  | code entries => Decoder.ReadsVector (Decoder.sizedBody features limits) w entries c
  | data entries => Decoder.ReadsVector (Decoder.dataSegment features) w entries c
  | dataCount count => Decoder.u32 w = .ok count c

/-- What the section adds to a module. -/
def addTo (m : RawModule) : Contents → RawModule
  | custom s names => { m with customs := m.customs ++ [s], names := names.getD m.names }
  | types entries => { m with types := entries.map (·.2) }
  | imports entries => { m with imports := entries.map (·.2) }
  | functions entries => { m with functions := entries.map (·.2) }
  | tables entries => { m with tables := entries.map (·.2) }
  | memories entries => { m with memories := entries.map (·.2) }
  | globals entries => { m with globals := entries.map (·.2) }
  | exports entries => { m with exports := entries.map (·.2) }
  | start func => { m with start := some func }
  | elements entries => { m with elements := entries.map (·.2) }
  | code entries => { m with bodies := entries.map (·.2) }
  | data entries => { m with data := entries.map (·.2) }
  | dataCount count => { m with dataCount := some count }

end Contents

/-- A section: the bytes of its size, its payload, and what that holds. -/
structure Section where
  size : List UInt8
  payload : List UInt8
  contents : Contents

namespace Section

/-- The bytes of the section. -/
def bytes (s : Section) : List UInt8 := s.contents.id :: s.size ++ s.payload

/-- **A section stands at a position** of a module's bytes: the size is that of the payload and not too large, and
what the section holds takes up the payload up to its last byte. -/
structure StandsAt (features : Features) (limits : DecodeLimits) (data : ByteArray) (pos : Nat) (s : Section) :
    Prop where
  size : Leb128.Unsigned 32 s.size s.payload.length
  limit : s.payload.length ≤ limits.maxSectionSize
  payload : s.contents.StandsIn features limits ⟨data, pos + 1 + s.size.length, pos + s.bytes.length⟩
    ⟨data, pos + s.bytes.length, pos + s.bytes.length⟩

/-- Sections stand one behind the other. -/
def StandFrom (features : Features) (limits : DecodeLimits) (data : ByteArray) : Nat → List Section → Prop
  | _, [] => True
  | pos, s :: rest => s.StandsAt features limits data pos ∧ StandFrom features limits data (pos + s.bytes.length) rest

end Section

namespace RawModule

/-- What sections add to a module, one after the other. -/
def extend (m : RawModule) (sections : List Section) : RawModule :=
  sections.foldl (fun m s => s.contents.addTo m) m

/-- The module that consists of some sections. -/
def ofSections (sections : List Section) : RawModule := extend {} sections

/-- **The format of modules.** Bytes are a header and sections, whose order is that of `sectionRank?`, custom
sections apart; there is a body for each function, and as many data segments as announced. -/
structure Format (features : Features) (limits : DecodeLimits) (data : ByteArray) (sections : List Section) :
    Prop where
  bytes : data.toList = magicBytes ++ versionBytes ++ sections.flatMap Section.bytes
  stand : Section.StandFrom features limits data 8 sections
  ordered : (sections.filterMap (·.contents.rank?)).Pairwise (· < ·)
  bodies : (ofSections sections).bodies.length = (ofSections sections).functions.length
  dataCount : ∀ n, (ofSections sections).dataCount = some n → n = (ofSections sections).data.length

end RawModule

/-! ### What is read in a window -/

variable {features : Features} {limits : DecodeLimits}

theorem Contents.StandsIn.onward {contents : Contents} {w c : Cursor} (h : contents.StandsIn features limits w c) :
    w.Onward c := by
  have hvector {α : Type} {d : Decoder α} {entries : List (Nat × α)} (hd : Keeps Cursor.Onward d)
      (h : Decoder.ReadsVector d w entries c) : w.Onward c := by
    obtain ⟨c₁, hn, h⟩ := h
    exact trans_of _ (Decoder.onward_of_ok Decoder.keeps_count hn) (h.onward hd)
  cases contents with
  | custom s names =>
    obtain ⟨c₁, hname, -, -, -, rfl⟩ := h
    exact trans_of _ (Decoder.onward_of_ok Decoder.keeps_name hname) (Cursor.onward_advance (Nat.le_refl _))
  | types => exact hvector (Decoder.keeps_funcType _) h
  | imports => exact hvector (Decoder.keeps_importEntry _) h
  | functions => exact hvector Decoder.keeps_u32 h
  | tables => exact hvector (Decoder.keeps_tableType _) h
  | memories => exact hvector Decoder.keeps_limits h
  | globals => exact hvector (Decoder.keeps_globalDef _) h
  | exports => exact hvector Decoder.keeps_exportEntry h
  | elements => exact hvector (Decoder.keeps_elementSegment _) h
  | code => exact hvector (Decoder.keeps_sizedBody _ _) h
  | data => exact hvector (Decoder.keeps_dataSegment _) h
  | start | dataCount => exact Decoder.onward_of_ok Decoder.keeps_u32 h

/-! ### The sections of a module are determined by its bytes -/

theorem Contents.StandsIn.unique {contents contents' : Contents} {w c c' : Cursor}
    (h : contents.StandsIn features limits w c) (h' : contents'.StandsIn features limits w c')
    (hid : contents.id = contents'.id) : contents = contents' := by
  have hnumber {n n' : Nat} (h : Decoder.u32 w = .ok n c) (h' : Decoder.u32 w = .ok n' c') : n = n' := by
    rw [h] at h'
    injection h'
  cases contents with
  | custom s names =>
    cases contents' with
    | custom s' names' =>
      obtain ⟨c₁, hname, hoffset, hdata, rfl, -⟩ := h
      obtain ⟨c₂, hname', hoffset', hdata', rfl, -⟩ := h'
      rw [hname] at hname'
      injection hname' with htext hc
      subst hc
      rw [htext]
      congr 1
      cases s
      cases s'
      simp_all
    | _ => nomatch hid
  | start => cases contents' with
    | start => exact congrArg _ (hnumber h h')
    | _ => nomatch hid
  | dataCount => cases contents' with
    | dataCount => exact congrArg _ (hnumber h h')
    | _ => nomatch hid
  | _ => cases contents' <;> first | exact congrArg _ (Decoder.ReadsVector.unique h h').1 | nomatch hid

theorem Section.StandFrom.unique {data : ByteArray} {pos : Nat} {sections sections' : List Section}
    (h : StandFrom features limits data pos sections) (h' : StandFrom features limits data pos sections')
    (hbytes : sections.flatMap bytes = sections'.flatMap bytes) : sections = sections' := by
  induction sections generalizing pos sections' with
  | nil =>
    cases sections' with
    | nil => rfl
    | cons => nomatch hbytes
  | cons s rest ih =>
    cases sections' with
    | nil => nomatch hbytes
    | cons s' rest' =>
      obtain ⟨hs, hrest⟩ := h
      obtain ⟨hs', hrest'⟩ := h'
      simp only [List.flatMap_cons, bytes, List.cons_append, List.append_assoc, List.cons.injEq] at hbytes
      obtain ⟨hid, hbytes⟩ := hbytes
      obtain ⟨hsize, hlength⟩ := hs.size.unique hs'.size hbytes
      rw [hsize, List.append_cancel_left_eq] at hbytes
      obtain ⟨hpayload, hmore⟩ := List.append_inj hbytes hlength
      have hlen : s.bytes.length = s'.bytes.length := by
        simp only [bytes, List.cons_append, List.length_cons, List.length_append, hsize, hpayload]
      have hcontents := hs'.payload
      rw [← hsize, ← hlen] at hcontents
      have hsame := hs.payload.unique hcontents hid
      rw [← hlen] at hrest'
      rw [ih hrest hrest' hmore]
      congr 1
      cases s
      cases s'
      simp_all

theorem RawModule.Format.unique {data : ByteArray} {sections sections' : List Section}
    (h : Format features limits data sections) (h' : Format features limits data sections') : sections = sections' :=
  h.stand.unique h'.stand (List.append_cancel_left (h.bytes.symm.trans h'.bytes))

/-! ### The payload of a section -/

/-- Bodies are as many as the functions that were declared before. -/
def Contents.Matches (m : RawModule) (contents : Contents) : Prop :=
  ∀ entries, contents = .code entries → entries.length = m.functions.length

namespace Decoder

variable {m m' : RawModule} {w c : Cursor}

theorem return_vector_eq_ok {α : Type} {d : Decoder α} {k : List α → RawModule} :
    (do return k (← vector d)) w = .ok m' c ↔ ∃ entries, ReadsVector d w entries c ∧ k (entries.map (·.2)) = m' := by
  simp only [estate_bind_eq_ok, estate_pure_eq_ok, vector_eq_ok]
  constructor
  · rintro ⟨_, _, ⟨entries, h, rfl⟩, rfl, rfl⟩
    exact ⟨entries, h, rfl⟩
  · rintro ⟨entries, h, rfl⟩
    exact ⟨_, c, ⟨entries, h, rfl⟩, rfl, rfl⟩

theorem return_u32_eq_ok {k : Nat → RawModule} :
    (do return k (← u32)) w = .ok m' c ↔ ∃ n, u32 w = .ok n c ∧ k n = m' := by
  simp only [estate_bind_eq_ok, estate_pure_eq_ok]
  constructor
  · rintro ⟨n, _, h, rfl, rfl⟩
    exact ⟨n, h, rfl⟩
  · rintro ⟨n, h, rfl⟩
    exact ⟨n, c, h, rfl, rfl⟩

theorem codeSection_eq_ok {declared : Nat} {bodies : List FunctionBody} :
    codeSection features limits declared w = .ok bodies c ↔ ∃ entries,
      ReadsVector (sizedBody features limits) w entries c ∧ entries.length = declared ∧ entries.map (·.2) = bodies := by
  have hcheck (n : Nat) (c₁ : Cursor) : (do
      if n ≠ declared then fail .bodyCount (← position)
      items (sizedBody features limits) n) c₁ = .ok bodies c ↔
      n = declared ∧ items (sizedBody features limits) n c₁ = .ok bodies c := by
    by_cases hn : n = declared
    · simp [hn]
    · simp [hn, estate_bind_eq_ok]
  unfold codeSection
  rw [estate_bind_eq_ok]
  simp only [hcheck, items_eq_ok]
  constructor
  · rintro ⟨n, c₁, hn, rfl, entries, h, rfl, rfl⟩
    exact ⟨entries, ⟨c₁, hn, h⟩, rfl, rfl⟩
  · rintro ⟨entries, ⟨c₁, hn, h⟩, rfl, rfl⟩
    exact ⟨_, c₁, hn, rfl, entries, h, rfl, rfl⟩

/-- Sections that have a place in the order. -/
theorem mem_of_sectionRank {id : UInt8} {rank : Nat} (h : sectionRank? id = some rank) :
    id ∈ [1, 2, 3, 4, 5, 6, 7, 8, 9, 12, 10, 11] := by
  by_contra hid
  rw [sectionRank?, List.idxOf?_eq_none_iff.mpr hid] at h
  nomatch h

/-- **The payload of a section that is not custom**, whatever it is that the section holds. -/
theorem knownSection_eq_ok {id : UInt8} {rank : Nat} (hid : sectionRank? id = some rank) :
    knownSection features limits id m w = .ok m' c ↔ ∃ contents : Contents, contents.id = id ∧
      contents.StandsIn features limits w c ∧ contents.Matches m ∧ contents.addTo m = m' := by
  constructor
  · intro h
    unfold knownSection at h
    split at h
    · obtain ⟨entries, hr, rfl⟩ := return_vector_eq_ok.mp h
      exact ⟨.types entries, rfl, hr, nofun, rfl⟩
    · obtain ⟨entries, hr, rfl⟩ := return_vector_eq_ok.mp h
      exact ⟨.imports entries, rfl, hr, nofun, rfl⟩
    · obtain ⟨entries, hr, rfl⟩ := return_vector_eq_ok.mp h
      exact ⟨.functions entries, rfl, hr, nofun, rfl⟩
    · obtain ⟨entries, hr, rfl⟩ := return_vector_eq_ok.mp h
      exact ⟨.tables entries, rfl, hr, nofun, rfl⟩
    · obtain ⟨entries, hr, rfl⟩ := return_vector_eq_ok.mp h
      exact ⟨.memories entries, rfl, hr, nofun, rfl⟩
    · obtain ⟨entries, hr, rfl⟩ := return_vector_eq_ok.mp h
      exact ⟨.globals entries, rfl, hr, nofun, rfl⟩
    · obtain ⟨entries, hr, rfl⟩ := return_vector_eq_ok.mp h
      exact ⟨.exports entries, rfl, hr, nofun, rfl⟩
    · obtain ⟨func, hr, rfl⟩ := return_u32_eq_ok.mp h
      exact ⟨.start func, rfl, hr, nofun, rfl⟩
    · obtain ⟨entries, hr, rfl⟩ := return_vector_eq_ok.mp h
      exact ⟨.elements entries, rfl, hr, nofun, rfl⟩
    · obtain ⟨_, _, hcode, hm⟩ := estate_bind_eq_ok.mp h
      obtain ⟨rfl, rfl⟩ := estate_pure_eq_ok.mp hm
      obtain ⟨entries, hr, hlength, rfl⟩ := codeSection_eq_ok.mp hcode
      refine ⟨.code entries, rfl, hr, ?_, rfl⟩
      rintro _ ⟨⟩
      exact hlength
    · obtain ⟨entries, hr, rfl⟩ := return_vector_eq_ok.mp h
      exact ⟨.data entries, rfl, hr, nofun, rfl⟩
    · obtain ⟨count, hr, rfl⟩ := return_u32_eq_ok.mp h
      exact ⟨.dataCount count, rfl, hr, nofun, rfl⟩
    · -- any other identifier has no place in the order
      have hmem := mem_of_sectionRank hid
      simp only [List.mem_cons, List.not_mem_nil, or_false] at hmem
      grind
  · rintro ⟨contents, rfl, h, hmatches, rfl⟩
    cases contents with
    | custom => nomatch hid
    | start func | dataCount count => exact return_u32_eq_ok.mpr ⟨_, h, rfl⟩
    | code entries =>
      refine estate_bind_eq_ok.mpr ⟨_, c, codeSection_eq_ok.mpr ⟨entries, h, hmatches entries rfl, rfl⟩, ?_⟩
      exact estate_pure_eq_ok.mpr ⟨rfl, rfl⟩
    | _ entries => exact return_vector_eq_ok.mpr ⟨entries, h, rfl⟩

end Decoder

end WasmEngine
