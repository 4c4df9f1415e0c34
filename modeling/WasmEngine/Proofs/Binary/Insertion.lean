import WasmEngine.Proofs.Binary.Proposals
import WasmEngine.Proofs.Binary.Relocation

/-!
# Custom sections that are inserted

A custom section may stand between any two sections of a module, with any name and any data (`CustomForm`). If one is
inserted, the sections before it stand where they stood, and those behind it stand later by its length. So the bytes are
those of a module again, and it differs from the one before in its custom sections, in the offsets of what stands
behind the new section, and in its names if the section has any (`RawModule.insert`, `RawModule.ofBytes_inserted`).

Every position in a section lies in the bytes of the section, or at the end of them. So for what becomes of the sections
of a module it is enough to know what becomes of the positions in their bytes (`Section.StandFrom.mapOffsets_congr`).
-/

namespace WasmEngine

variable {features : Features} {limits : DecodeLimits} {m : RawModule} {data data' : ByteArray} {pos : Nat}
  {f g : Nat → Nat}

/-! ### Positions in sections -/

/-- All that has an offset in a body stands in the window that the body was read in. -/
theorem Decoder.sizedBody_within {c c' : Cursor} {body : FunctionBody} (hc : c.pos ≤ c.stop)
    (h : sizedBody features limits c = .ok body c') :
    (c.pos ≤ body.offset ∧ body.offset ≤ c.stop) ∧ ∀ x ∈ body.code, c.pos ≤ x.1 ∧ x.1 ≤ c.stop := by
  obtain ⟨size, length, hlength, hsize, hoffset, n, c₁, c₂, c₃, hn, hlocals, hcode⟩ := sizedBody_parts h
  have hroom : c.pos + length + size ≤ c.stop := by
    have hfits := Cursor.remaining_of_unsignedAt hlength
    rw [Cursor.remaining_advance] at hsize
    unfold Cursor.remaining at hsize hfits
    omega
  refine ⟨by omega, fun x hx => ?_⟩
  obtain ⟨c₄, _, honward, -, hpos⟩ := instructionsFrom_mem hcode x hx
  have hwindow : ((c.advance length).window size).Onward c₄ :=
    trans_of _ (onward_of_ok keeps_count hn) (trans_of _ (onward_of_ok (keeps_localGroups _ _ _ _) hlocals) honward)
  have hle : c.pos + length ≤ c₄.pos := hwindow.pos
  have hge : c₄.pos ≤ c.pos + length + size := hwindow.fits (Nat.le_add_right _ _)
  omega

/-- What a section holds has positions in the window of the section only. -/
theorem Contents.StandsIn.mapOffsets_congr {contents : Contents} {w c : Cursor}
    (h : contents.StandsIn features limits w c) (hw : w.pos ≤ w.stop)
    (hsame : ∀ o, w.pos ≤ o → o ≤ w.stop → f o = g o) : contents.mapOffsets f = contents.mapOffsets g := by
  have hvector {α : Type} {d : Decoder α} {entries : List (Nat × α)} {F G : α → α} (hd : Keeps Cursor.Onward d)
      (h : Decoder.ReadsVector d w entries c) (hFG : ∀ c₁ c₂ a, w.Onward c₁ → d c₁ = .ok a c₂ → F a = G a) :
      entries.map (Prod.map f F) = entries.map (Prod.map g G) := by
    refine List.map_congr_left fun x hx => ?_
    obtain ⟨c₁, c₂, honward, hread, hpos⟩ := h.mem hd hx
    have hposition := hsame c₁.pos honward.pos (honward.fits hw)
    rw [hpos] at hposition
    exact Prod.ext hposition (hFG c₁ c₂ x.2 honward hread)
  have hplain {α : Type} {d : Decoder α} {entries : List (Nat × α)} (hd : Keeps Cursor.Onward d)
      (h : Decoder.ReadsVector d w entries c) :
      entries.map (Prod.map f fun a => a) = entries.map (Prod.map g fun a => a) := hvector hd h fun _ _ _ _ _ => rfl
  cases contents with
  | custom s names =>
    obtain ⟨c₁, hname, hoffset, -⟩ := h
    have honward := Decoder.onward_of_ok Decoder.keeps_name hname
    have hposition := hsame c₁.pos honward.pos (honward.fits hw)
    rw [← hoffset] at hposition
    rw [mapOffsets, mapOffsets, CustomSection.mapOffset, CustomSection.mapOffset, hposition]
  | types => exact congrArg _ (hplain (Decoder.keeps_funcType _) h)
  | imports => exact congrArg _ (hplain (Decoder.keeps_importEntry _) h)
  | functions => exact congrArg _ (hplain Decoder.keeps_u32 h)
  | tables => exact congrArg _ (hplain (Decoder.keeps_tableType _) h)
  | memories => exact congrArg _ (hplain Decoder.keeps_limits h)
  | globals => exact congrArg _ (hplain (Decoder.keeps_globalDef _) h)
  | exports => exact congrArg _ (hplain Decoder.keeps_exportEntry h)
  | elements => exact congrArg _ (hplain (Decoder.keeps_elementSegment _) h)
  | data => exact congrArg _ (hplain (Decoder.keeps_dataSegment _) h)
  | code entries =>
    refine congrArg _ (hvector (Decoder.keeps_sizedBody _ _) h fun c₁ c₂ body honward hread => ?_)
    have hstop := honward.stop
    have hfits := honward.fits hw
    have hpos := honward.pos
    obtain ⟨hoffset, hcode⟩ := Decoder.sizedBody_within (hstop ▸ hfits) hread
    rw [hstop] at hoffset hcode
    unfold FunctionBody.mapOffsets
    congr 1
    · refine List.map_congr_left fun x hx => ?_
      have hx := hcode x hx
      exact Prod.ext (hsame x.1 (by omega) hx.2) rfl
    · exact hsame body.offset (by omega) hoffset.2
  | start | dataCount => rfl

namespace Section

variable {s : Section} {S : List Section}

theorem StandsAt.mapOffsets_congr (h : s.StandsAt features limits data pos)
    (hsame : ∀ o, pos < o → o ≤ pos + s.bytes.length → f o = g o) : s.mapOffsets f = s.mapOffsets g := by
  have hlength := s.length_bytes
  have hcontents : s.contents.mapOffsets f = s.contents.mapOffsets g :=
    h.payload.mapOffsets_congr (by dsimp only; omega) fun o hle hge => hsame o (by dsimp only at hle; omega) hge
  rw [mapOffsets, mapOffsets, hcontents]

/-- **Sections have positions in their bytes only.** -/
theorem StandFrom.mapOffsets_congr (h : StandFrom features limits data pos S)
    (hsame : ∀ o, pos < o → o ≤ pos + (S.flatMap bytes).length → f o = g o) :
    S.map (mapOffsets f) = S.map (mapOffsets g) := by
  induction S generalizing pos with
  | nil => rfl
  | cons s S ih =>
    obtain ⟨hs, hS⟩ := h
    rw [List.flatMap_cons, List.length_append] at hsame
    rw [List.map_cons, List.map_cons, hs.mapOffsets_congr fun o hlt hle => hsame o hlt (by omega),
      ih hS fun o hlt hle => hsame o (by omega) (by omega)]

end Section

/-! ### Modules whose sections stand elsewhere -/

/-- A module in which all that has an offset stands elsewhere. -/
def RawModule.mapOffsets (f : Nat → Nat) (m : RawModule) : RawModule :=
  { m with
    bodies := m.bodies.map (·.mapOffsets f)
    customs := m.customs.map (·.mapOffset f) }

theorem Contents.addTo_mapOffsets (contents : Contents) :
    (contents.mapOffsets f).addTo (m.mapOffsets f) = (contents.addTo m).mapOffsets f := by
  cases contents <;> simp [mapOffsets, addTo, RawModule.mapOffsets]

theorem RawModule.extend_mapOffsets (S : List Section) :
    (m.mapOffsets f).extend (S.map (Section.mapOffsets f)) = (m.extend S).mapOffsets f := by
  induction S generalizing m with
  | nil => rfl
  | cons s S ih =>
    rw [List.map_cons]
    change (((s.contents.mapOffsets f).addTo (m.mapOffsets f)).extend _) = _
    rw [Contents.addTo_mapOffsets, ih]
    rfl

/-- The custom section that a section is. -/
def Section.custom? (s : Section) : Option CustomSection :=
  match s.contents with
  | .custom s _ => some s
  | _ => none

/-- The names that a section has. -/
def Section.names? (s : Section) : Option Names :=
  match s.contents with
  | .custom _ names => names
  | _ => none

@[simp] theorem Section.names?_mapOffsets (s : Section) : (s.mapOffsets f).names? = s.names? := by
  obtain ⟨size, payload, contents⟩ := s
  cases contents <;> rfl

/-- The names behind some sections. Those of each section replace any before. -/
def Section.namesBehind (names : Names) (S : List Section) : Names := S.foldl (fun names s => s.names?.getD names) names

theorem Section.namesBehind_mapOffsets (names : Names) (S : List Section) :
    namesBehind names (S.map (mapOffsets f)) = namesBehind names S := by
  simp [namesBehind, List.foldl_map]

/-- Names before a section that has some do not count. -/
theorem Section.namesBehind_eq (names names' : Names) (S : List Section) :
    namesBehind names' S = if S.any (·.names?.isSome) then namesBehind names S else names' := by
  induction S generalizing names names' with
  | nil => rfl
  | cons s S ih =>
    change namesBehind (s.names?.getD names') S = if _ then namesBehind (s.names?.getD names) S else _
    cases hs : s.names? with
    | none => simpa [hs] using ih names names'
    | some own => simp [hs]

/-- A module with other custom sections and other names. -/
def RawModule.withCustoms (m : RawModule) (customs : List CustomSection) (names : Names) : RawModule :=
  { m with customs, names }

theorem Section.addTo_withCustoms (s : Section) (customs : List CustomSection) (names : Names) :
    s.contents.addTo (m.withCustoms customs names) =
      (s.contents.addTo m).withCustoms (customs ++ s.custom?.toList) (s.names?.getD names) := by
  obtain ⟨size, payload, contents⟩ := s
  cases contents <;> simp [Contents.addTo, RawModule.withCustoms, custom?, names?]

/-- **What was there of custom sections and names** makes no difference to what sections add to a module. -/
theorem RawModule.extend_withCustoms (customs : List CustomSection) (names : Names) (S : List Section) :
    (m.withCustoms customs names).extend S = (m.extend S).withCustoms (customs ++ S.filterMap Section.custom?)
      (Section.namesBehind names S) := by
  induction S generalizing m customs names with
  | nil => simp [extend, Section.namesBehind]
  | cons s S ih =>
    change (s.contents.addTo (m.withCustoms customs names)).extend S = _
    rw [s.addTo_withCustoms, ih]
    congr 1
    cases hs : s.custom? <;> simp [hs]

theorem RawModule.customs_extend (S : List Section) :
    (m.extend S).customs = m.customs ++ S.filterMap Section.custom? := by
  have h := m.extend_withCustoms m.customs m.names S
  exact congrArg customs h

theorem RawModule.names_extend (S : List Section) : (m.extend S).names = Section.namesBehind m.names S := by
  have h := m.extend_withCustoms m.customs m.names S
  exact congrArg names h

/-! ### The form of custom sections -/

/-- A name is read if its length and its text stand in front of the cursor. -/
theorem Decoder.name_of_rest {c : Cursor} (hc : c.Sound) {text : String} {length rest : List UInt8}
    (hlength : Leb128.Unsigned 32 length text.toUTF8.size) (hrest : c.rest = length ++ text.toUTF8.toList ++ rest) :
    name c = .ok text ((c.advance length.length).advance text.toUTF8.size) := by
  have hread : u32 c = .ok text.toUTF8.size (c.advance length.length) :=
    u32_eq_ok.mpr ⟨_, ⟨length, hlength, hrest ▸ ⟨_, (List.append_assoc _ _ _).symm⟩, rfl⟩, rfl⟩
  have hbehind : (c.advance length.length).rest = text.toUTF8.toList ++ rest := by
    rw [Cursor.rest_advance, hrest, List.append_assoc, List.drop_left]
  have hsize : text.toUTF8.toList.length = text.toUTF8.size := by
    rw [ByteArray.toList_eq]
    rfl
  have htext : text.toUTF8.size ≤ (c.advance length.length).remaining := by
    have hall := hc.length_rest
    simp only [hrest, List.length_append, hsize] at hall
    rw [Cursor.remaining_advance]
    omega
  have htake : (c.advance length.length).take text.toUTF8.size = text.toUTF8 := by
    apply ByteArray.eq_of_toList
    rw [toList_take htext, hbehind, List.take_left' hsize]
  have hvalid : String.fromUTF8? text.toUTF8 = some text := dif_pos text.isValidUTF8
  refine estate_bind_eq_ok.mpr ⟨_, _, hread, estate_bind_eq_ok.mpr ⟨_, _, position_eq_ok.mpr ⟨rfl, rfl⟩, ?_⟩⟩
  refine estate_bind_eq_ok.mpr ⟨_, _, bytes_eq_ok.mpr ⟨htext, htake, rfl⟩, ?_⟩
  rw [hvalid]
  rfl

/-- **The form of a custom section**: the bytes of its size and of the length of its name, its name, and its data. -/
structure CustomForm where
  size : List UInt8
  nameLength : List UInt8
  name : String
  data : ByteArray

namespace CustomForm

variable (s : CustomForm)

/-- What the size is the size of. -/
def payload : List UInt8 := s.nameLength ++ s.name.toUTF8.toList ++ s.data.toList

/-- The bytes of the section. -/
def bytes : List UInt8 := 0 :: s.size ++ s.payload

/-- Both integers are what they should be, in as many bytes as they like, and the section is not too large. -/
structure WellFormed (limits : DecodeLimits) : Prop where
  size : Leb128.Unsigned 32 s.size s.payload.length
  nameLength : Leb128.Unsigned 32 s.nameLength s.name.toUTF8.size
  limit : s.payload.length ≤ limits.maxSectionSize

/-- What is kept of the section if it stands at a position. -/
def customAt (pos : Nat) : CustomSection where
  name := s.name
  offset := pos + (s.bytes.length - s.data.size)
  data := s.data

/-- The names in the section: none unless it is called `name` and the whole of its data can be read. -/
def names? : Option Names := Decoder.namesIn s.name (.ofBytes s.data)

/-- The section at a position. -/
def sectionAt (pos : Nat) : Section where
  size := s.size
  payload := s.payload
  contents := .custom (s.customAt pos) s.names?

@[simp] theorem rank?_sectionAt : (s.sectionAt pos).contents.rank? = none := rfl

@[simp] theorem bytes_sectionAt : (s.sectionAt pos).bytes = s.bytes := rfl

theorem length_payload : s.payload.length = s.nameLength.length + s.name.toUTF8.size + s.data.size := by
  simp only [payload, List.length_append, ByteArray.toList_eq]
  rfl

theorem length_bytes : s.bytes.length = 1 + s.size.length + s.payload.length := by
  simp only [bytes, List.cons_append, List.length_cons, List.length_append]
  omega

variable {s}

/-- Name and data take up a window that has their bytes. -/
theorem WellFormed.standsIn (h : s.WellFormed limits) {w : Cursor} (hw : w.Sound) (hrest : w.rest = s.payload)
    (hpos : w.pos = pos + 1 + s.size.length) :
    (s.sectionAt pos).contents.StandsIn features limits w ⟨w.data, w.stop, w.stop⟩ := by
  have hname := Decoder.name_of_rest hw h.nameLength hrest
  have honward := Decoder.onward_of_ok Decoder.keeps_name hname
  have hbehind : ((w.advance s.nameLength.length).advance s.name.toUTF8.size).rest = s.data.toList := by
    rw [Cursor.advance_advance, Cursor.rest_advance, hrest, payload]
    refine List.drop_left' ?_
    rw [List.length_append, ByteArray.toList_eq]
    rfl
  generalize hc : (w.advance s.nameLength.length).advance s.name.toUTF8.size = c at hname honward hbehind
  have hsound := honward.sound hw
  have hstart : c.pos = w.pos + s.nameLength.length + s.name.toUTF8.size := by rw [← hc]; rfl
  refine ⟨c, hname, ?_, ?_, ?_, ?_⟩
  · change pos + (s.bytes.length - s.data.size) = c.pos
    rw [hstart, hpos, s.length_bytes, s.length_payload]
    omega
  · apply ByteArray.eq_of_toList
    rw [Decoder.toList_take (Nat.le_refl _), hbehind, ← hsound.length_rest, hbehind, List.take_length]
    rfl
  · refine (Decoder.namesIn_later (k := c.pos) s.name ⟨(Nat.zero_add _).symm, ?_, ?_⟩).symm
    · have hlength := hsound.length_rest
      rw [hbehind, ByteArray.toList_eq] at hlength
      have hsize : s.data.size = c.stop - c.pos := hlength
      have hle := hsound.pos
      change c.stop = s.data.size + c.pos
      omega
    · rw [hbehind, Cursor.rest_ofBytes]
  · have hle := hsound.pos
    rw [← honward.data, ← honward.stop]
    simp only [Cursor.advance, Cursor.remaining, Nat.add_sub_cancel' hle]

/-- **A custom section stands wherever its bytes do.** -/
theorem WellFormed.standsAt (h : s.WellFormed limits) (hdata : s.bytes <+: data.toList.drop pos) :
    (s.sectionAt pos).StandsAt features limits data pos := by
  refine ⟨h.size, h.limit, h.standsIn ⟨?_, ?_⟩ ?_ rfl⟩
  · change pos + 1 + s.size.length ≤ pos + s.bytes.length
    rw [s.length_bytes]
    omega
  · have hle := hdata.length_le
    have hlength := s.length_bytes
    rw [List.length_drop, ByteArray.toList_eq] at hle
    change pos + s.bytes.length ≤ data.data.toList.length
    omega
  · change Cursor.rest ⟨data, pos + 1 + s.size.length, pos + s.bytes.length⟩ = s.payload
    rw [Nat.add_assoc, Section.rest_window hdata, Nat.add_comm]
    exact List.drop_left

end CustomForm

/-! ### Modules with one more custom section -/

theorem List.insertIdx_length_append {α : Type} (l l' : List α) (a : α) :
    (l ++ l').insertIdx l.length a = l ++ a :: l' := by
  induction l with
  | nil => rfl
  | cons b l ih => simp [ih]

/-- Where some sections at the start of a module end. -/
def Section.boundary (before : List Section) : Nat := 8 + (before.flatMap Section.bytes).length

/-- Where an offset is once so many bytes have been inserted at a position. What has the position itself as its offset
is empty and belongs to what ends there. -/
def shiftBehind (pos inserted offset : Nat) : Nat := if offset ≤ pos then offset else offset + inserted

/-- **A module with one more custom section**, which stands between other sections. It is one more among the custom
sections. All else is as before but for offsets behind the place where it stands, and for the names if it has any and
none behind it count for more. -/
def RawModule.insert (m : RawModule) (before behind : List Section) (s : CustomForm) : RawModule :=
  let place := Section.boundary before
  let shift := shiftBehind place s.bytes.length
  { m with
    bodies := m.bodies.map (·.mapOffsets shift)
    customs := (m.customs.map (·.mapOffset shift)).insertIdx (before.filterMap Section.custom?).length
      (s.customAt place)
    names := if behind.any (·.names?.isSome) then m.names else s.names?.getD m.names }

variable {before behind : List Section} {s : CustomForm}

theorem RawModule.ofSections_insert (h : Section.StandFrom features limits data 8 (before ++ behind)) :
    ofSections (before ++ s.sectionAt (Section.boundary before) ::
        behind.map (Section.mapOffsets (· + s.bytes.length))) =
      (ofSections (before ++ behind)).insert before behind s := by
  obtain ⟨hbefore, hbehind⟩ := Section.standFrom_append.mp h
  generalize hplace : Section.boundary before = place
  generalize hshift : shiftBehind place s.bytes.length = shift
  -- with regard to the sections of the module, both ways to move them are the same
  have hstay : before = before.map (Section.mapOffsets shift) := by
    have hsame := hbefore.mapOffsets_congr (f := fun o => o) (g := shift) fun o _ hle => by
      rw [← hshift, shiftBehind, if_pos (hplace ▸ hle)]
    simpa [funext Section.mapOffsets_id] using hsame
  have hmove : behind.map (Section.mapOffsets (· + s.bytes.length)) = behind.map (Section.mapOffsets shift) :=
    hbehind.mapOffsets_congr fun o hlt _ => by
      rw [← hshift, shiftBehind, if_neg (Nat.not_le.mpr (hplace ▸ hlt))]
  have hfirst : ofSections before = (ofSections before).mapOffsets shift := by
    conv_lhs => rw [hstay]
    exact extend_mapOffsets (m := {}) before
  have hall : (ofSections before).extend (behind.map (Section.mapOffsets shift)) =
      (ofSections (before ++ behind)).mapOffsets shift := by
    conv_lhs => rw [hfirst]
    rw [extend_mapOffsets, ofSections, ofSections, extend, extend, extend, List.foldl_append]
  have hextend : ofSections (before ++ s.sectionAt place :: behind.map (Section.mapOffsets shift)) =
      ((ofSections before).withCustoms ((ofSections before).customs ++ [s.customAt place])
        (s.names?.getD (ofSections before).names)).extend (behind.map (Section.mapOffsets shift)) := by
    rw [ofSections, extend, List.foldl_append]
    rfl
  have hcustoms := (ofSections before).customs_extend (behind.map (Section.mapOffsets shift))
  have hnames := (ofSections before).names_extend behind
  rw [hall] at hcustoms
  rw [hmove, hextend, extend_withCustoms, hall, Section.namesBehind_mapOffsets]
  have hinsert : ((ofSections (before ++ behind)).customs.map (·.mapOffset shift)).insertIdx
      (before.filterMap Section.custom?).length (s.customAt place) =
        (ofSections before).customs ++ [s.customAt place] ++
          (behind.map (Section.mapOffsets shift)).filterMap Section.custom? := by
    have hlength : (before.filterMap Section.custom?).length = (ofSections before).customs.length := by
      rw [ofSections, customs_extend]
      rfl
    change ((ofSections (before ++ behind)).mapOffsets shift).customs.insertIdx _ _ = _
    rw [hcustoms, hlength, List.insertIdx_length_append, List.append_assoc]
    rfl
  have hdebug : Section.namesBehind (s.names?.getD (ofSections before).names) behind =
      if behind.any (·.names?.isSome) then (ofSections (before ++ behind)).names
        else s.names?.getD (ofSections (before ++ behind)).names := by
    have hlast : (ofSections (before ++ behind)).names = Section.namesBehind (ofSections before).names behind := by
      rw [← hnames, ofSections, ofSections, extend, extend, extend, List.foldl_append]
    rw [Section.namesBehind_eq (ofSections before).names, hlast]
    split
    · rfl
    · next hnone => rw [Section.namesBehind_eq (ofSections before).names, if_neg hnone]
  simp only [insert, withCustoms, mapOffsets, hplace, hshift, hinsert, hdebug]

/-- **The format is kept** where a custom section is inserted. -/
theorem RawModule.Format.insert (h : Format features limits data (before ++ behind)) (hs : s.WellFormed limits)
    (hdata : data'.toList = data.toList.take (Section.boundary before) ++ s.bytes ++
      data.toList.drop (Section.boundary before)) : Format features limits data'
        (before ++ s.sectionAt (Section.boundary before) :: behind.map (Section.mapOffsets (· + s.bytes.length))) := by
  obtain ⟨hbefore, hbehind⟩ := Section.standFrom_append.mp h.stand
  have hbytes := h.bytes
  rw [List.flatMap_append, ← List.append_assoc] at hbytes
  have hlength : (magicBytes ++ versionBytes ++ before.flatMap Section.bytes).length = Section.boundary before := by
    rw [List.length_append]
    rfl
  have hdrop : data.toList.drop (Section.boundary before) = behind.flatMap Section.bytes := by
    rw [hbytes, List.drop_left' hlength]
  have hbytes' : data'.toList =
      magicBytes ++ versionBytes ++ before.flatMap Section.bytes ++ s.bytes ++ behind.flatMap Section.bytes := by
    rw [hdata, hdrop, hbytes, List.take_left' hlength]
  have hdrop' : data'.toList.drop (Section.boundary before) = s.bytes ++ behind.flatMap Section.bytes := by
    rw [hbytes', List.append_assoc _ s.bytes, List.drop_left' hlength]
  refine ⟨?_, Section.standFrom_append.mpr ⟨?_, hs.standsAt ?_, ?_⟩, ?_, ?_, ?_⟩
  · simp [hbytes', List.flatMap_append, List.flatMap_map]
  · have hstand : Section.StandFrom features limits data' 8 (before.map (Section.mapOffsets (· + 0))) := by
      refine hbefore.later (k := 0) ⟨behind.flatMap Section.bytes, ?_⟩ ⟨s.bytes ++ behind.flatMap Section.bytes, ?_⟩
      · rw [hbytes, List.append_assoc]
        rfl
      · simp only [hbytes', List.append_assoc]
        rfl
    simpa [funext Section.mapOffsets_id] using hstand
  · exact ⟨behind.flatMap Section.bytes, hdrop'.symm⟩
  · refine hbehind.later ⟨[], ?_⟩ ⟨[], ?_⟩
    · rw [List.append_nil]
      exact hdrop.symm
    · rw [← List.drop_drop, List.append_nil]
      exact (List.drop_left.symm.trans (congrArg (List.drop s.bytes.length) hdrop'.symm))
  · simpa [List.filterMap_cons, List.filterMap_map, Function.comp_def] using h.ordered
  · rw [ofSections_insert h.stand]
    simpa [RawModule.insert] using h.bodies
  · rw [ofSections_insert h.stand]
    simpa [RawModule.insert] using h.dataCount

/-- **Custom sections are inserted** wherever sections meet. -/
theorem RawModule.ofBytes_inserted (h : ofBytes data features limits = .ok m)
    (hS : Format features limits data (before ++ behind)) (hs : s.WellFormed limits)
    (hdata : data'.toList = data.toList.take (Section.boundary before) ++ s.bytes ++
      data.toList.drop (Section.boundary before)) :
    ofBytes data' features limits = .ok (m.insert before behind s) := by
  obtain ⟨S, hS', rfl⟩ := ofBytes_eq_ok_iff.mp h
  obtain rfl := hS'.unique hS
  exact ofBytes_eq_ok_iff.mpr ⟨_, hS.insert hs hdata, ofSections_insert hS.stand⟩

end WasmEngine
