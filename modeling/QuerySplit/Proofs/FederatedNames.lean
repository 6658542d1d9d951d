import QuerySplit.Dialect.Basic
import QuerySplit.Proofs.BaseNames

/-!
# Names of federated tables

A table is federated when its dataset, the dotted segment right before the last dot of its name,
ends in the suffix of the convention, in whatever ASCII case. What stands before the suffix there
is the dataset type.

The suffix is looked for in small letters, and what is cut off is counted in bytes of UTF-8. A
character and its small form take the same number of bytes (`utf8Size_toLower`), and a text that
ends in the bytes of another one ends in its characters (`bytesBefore?_eq_some_iff`). So the count
never splits a character of the dataset as it is written.

Main statement: `Naming.datasetType?_decided`.
-/

set_option autoImplicit false

namespace QuerySplit

/-! ## Suffixes up to case -/

namespace Text

/-- A small letter takes as many bytes as its capital. -/
theorem utf8Size_toLower (c : Char) : c.toLower.utf8Size = c.utf8Size := by
  by_cases hcapital : 'A'.val ≤ c.val ∧ c.val ≤ 'Z'.val
  · -- a capital and its small letter are both ASCII
    have hlower : c.toLower.val = c.val + ('a'.val - 'A'.val) :=
      congrArg Char.val (dif_pos hcapital)
    have hcapital : 65 ≤ c.val.toNat ∧ c.val.toNat ≤ 90 := hcapital
    have hsmall : c.toLower.val.toNat ≤ 127 := by
      have hshift : ('a'.val - 'A'.val).toNat = 32 := rfl
      rw [hlower, UInt32.toNat_add]
      omega
    have hascii : c.val.toNat ≤ 127 := by omega
    rw [Char.utf8Size_eq_one_iff.2 hsmall, Char.utf8Size_eq_one_iff.2 hascii]
  · have hlower : c.toLower = c := dif_neg hcapital
    rw [hlower]

/-- Small letters take as many bytes as the letters they are made of. -/
theorem utf8ByteSize_toLower (cs : List Char) :
    (String.ofList (cs.map Char.toLower)).utf8ByteSize = (String.ofList cs).utf8ByteSize := by
  induction cs with
  | nil => rfl
  | cons c cs ih =>
    have hcons : ∀ (d : Char) (ds : List Char),
        (String.ofList (d :: ds)).utf8ByteSize = d.utf8Size + (String.ofList ds).utf8ByteSize := by
      intro d ds
      rw [← List.singleton_append, String.ofList_append, String.utf8ByteSize_append,
        ← String.singleton_eq_ofList, String.utf8ByteSize_singleton]
    rw [List.map_cons, hcons, hcons, utf8Size_toLower, ih]

/-- How many bytes a text has before a suffix that it ends in up to ASCII case, read off the bytes
of the two in small letters. -/
def bytesBefore? (suffix text : String) : Option Nat :=
  let small := (String.ofList (lower text)).toByteArray
  let ending := (String.ofList (lower suffix)).toByteArray
  let before := small.size - ending.size
  if ending.size ≤ small.size ∧ (small.extract before small.size).data = ending.data then
    some before
  else none

/-- Where a character starts, a text can be cut into two. -/
theorem exists_append_of_isValid {text : String} {bytes : Nat}
    (h : (String.Pos.Raw.mk bytes).IsValid text) :
    ∃ stem rest : String, text = stem ++ rest ∧ stem.utf8ByteSize = bytes := by
  obtain ⟨i, hi⟩ := String.Pos.Raw.isValid_iff_exists_take_toList.1 h
  refine ⟨String.ofList (text.toList.take i), String.ofList (text.toList.drop i), ?_, hi.symm⟩
  rw [← String.ofList_append, List.take_append_drop, String.ofList_toList]

/-- The end of a stem is a character boundary of every text that starts with it. -/
theorem isValid_utf8ByteSize_append (stem rest : String) :
    (String.Pos.Raw.mk stem.utf8ByteSize).IsValid (stem ++ rest) :=
  String.Pos.Raw.isValid_rawEndPos.append_right rest

/-- The bytes of a text from some place on. -/
theorem extract_append (stem rest : String) :
    (stem ++ rest).toByteArray.extract stem.utf8ByteSize (stem ++ rest).utf8ByteSize =
      rest.toByteArray := by
  rw [String.toByteArray_append, String.utf8ByteSize_append]
  exact ByteArray.extract_append_eq_right rfl rfl

/-- A text that ends in the bytes of another one ends in its characters: these bytes are valid by
themselves, so they start where a character does. -/
theorem exists_append_of_extract {text ending : String} {bytes : Nat}
    (hle : bytes ≤ text.utf8ByteSize)
    (h : text.toByteArray.extract bytes text.utf8ByteSize = ending.toByteArray) :
    ∃ stem : String, text = stem ++ ending ∧ stem.utf8ByteSize = bytes := by
  have hvalid : (String.Pos.Raw.mk bytes).IsValid text := by
    rw [String.Pos.Raw.isValid_iff_isValidUTF8_extract_utf8ByteSize, h]
    exact ⟨hle, ending.isValidUTF8⟩
  obtain ⟨stem, rest, rfl, rfl⟩ := exists_append_of_isValid hvalid
  rw [extract_append, String.toByteArray_inj] at h
  exact ⟨stem, h ▸ rfl, rfl⟩

/-- The small form of two texts in a row is that of each. -/
theorem ofList_lower_append (a b : String) :
    String.ofList (lower (a ++ b)) = String.ofList (lower a) ++ String.ofList (lower b) := by
  rw [lower, String.toList_append, List.map_append, String.ofList_append, lower, lower]

/-- What the small form of a text is made of is the small form of what the text is made of. -/
theorem exists_append_of_lower {text : String} {small ending : List Char}
    (h : lower text = small ++ ending) :
    ∃ stem rest : String, text = stem ++ rest ∧ lower stem = small ∧ lower rest = ending := by
  obtain ⟨stem, rest, htext, hstem, hrest⟩ := List.map_eq_append_iff.1 h
  refine ⟨String.ofList stem, String.ofList rest, ?_, ?_, ?_⟩
  · rw [← String.ofList_append, ← htext, String.ofList_toList]
  · rw [lower, String.toList_ofList, hstem]
  · rw [lower, String.toList_ofList, hrest]

/-- **The bytes of a suffix are those of its characters**, so what a text has before them is a text
of its own. -/
theorem bytesBefore?_eq_some_iff {suffix text : String} {bytes : Nat} :
    bytesBefore? suffix text = some bytes ↔
      ∃ stem ending : String, text = stem ++ ending ∧ eqIgnoreCase ending suffix = true ∧
        stem.utf8ByteSize = bytes := by
  have hsize : ∀ s : String, (String.ofList (lower s)).utf8ByteSize = s.utf8ByteSize := by
    intro s
    rw [lower, utf8ByteSize_toLower, String.ofList_toList]
  unfold bytesBefore?
  simp only [String.size_toByteArray]
  constructor
  · intro h
    split at h
    · next hends =>
      cases h
      -- equal bytes are equal characters of the small forms, and these stand as in the texts
      obtain ⟨small, hsmall, hbytes⟩ :=
        exists_append_of_extract (Nat.sub_le _ _) (ByteArray.ext hends.2)
      have hchars := congrArg String.toList hsmall
      rw [String.toList_append, String.toList_ofList, String.toList_ofList] at hchars
      obtain ⟨stem, ending, htext, hstem, hending⟩ := exists_append_of_lower hchars
      refine ⟨stem, ending, htext, eqIgnoreCase_iff.2 hending, ?_⟩
      rw [← hsize, hstem, String.ofList_toList, hbytes]
    · cases h
  · rintro ⟨stem, ending, rfl, hending, rfl⟩
    have hle : (String.ofList (lower ending)).utf8ByteSize ≤
        (String.ofList (lower stem) ++ String.ofList (lower ending)).utf8ByteSize := by
      rw [String.utf8ByteSize_append]
      exact Nat.le_add_left _ _
    have hbefore : (String.ofList (lower stem) ++ String.ofList (lower ending)).utf8ByteSize -
          (String.ofList (lower ending)).utf8ByteSize =
        (String.ofList (lower stem)).utf8ByteSize := by
      rw [String.utf8ByteSize_append, Nat.add_sub_cancel]
    rw [← eqIgnoreCase_iff.1 hending, ofList_lower_append, hbefore, extract_append,
      if_pos ⟨hle, rfl⟩, hsize]

end Text

namespace Naming

/-- A suffix is dropped where the text ends with it in some ASCII case. -/
theorem dropSuffix?_eq_some_iff {suffix text stem : List Char} :
    dropSuffix? suffix text = some stem ↔
      ∃ ending, text = stem ++ ending ∧ ending.map Char.toLower = suffix.map Char.toLower := by
  simp only [dropSuffix?]
  constructor
  · intro h
    split at h
    · next hends =>
      cases h
      exact ⟨_, (List.take_append_drop _ _).symm, hends.2⟩
    · cases h
  · rintro ⟨ending, rfl, hending⟩
    have hlength : suffix.length = ending.length := by
      simpa using (congrArg List.length hending).symm
    have hkept : (stem ++ ending).length - suffix.length = stem.length := by
      rw [List.length_append, hlength, Nat.add_sub_cancel]
    have hle : suffix.length ≤ (stem ++ ending).length := by
      rw [List.length_append]
      omega
    rw [hkept, List.drop_left, List.take_left, if_pos ⟨hle, hending⟩]

end Naming

/-! ## Datasets -/

/-- The dataset of a table is the dotted segment right before the last dot of its name. -/
def IsDatasetOf (dataset table : String) : Prop :=
  '.' ∉ dataset.toList ∧ ∃ name : String, '.' ∉ name.toList ∧
    (table = dataset ++ "." ++ name ∨ ∃ path, table = path ++ "." ++ dataset ++ "." ++ name)

/-- The dataset is the last segment of what stands before the last dot. -/
theorem isDatasetOf_iff {dataset table : String} :
    IsDatasetOf dataset table ↔ ∃ before name, Text.cutLast '.' table.toList = some (before, name) ∧
      Text.lastSegment '.' before = dataset.toList := by
  have hdot : ".".toList = ['.'] := rfl
  constructor
  · rintro ⟨hdataset, name, hname, htable⟩
    obtain ⟨front, hfront, htable⟩ : ∃ front, IsFront front ∧
        table.toList = front ++ dataset.toList ++ '.' :: name.toList := by
      rcases htable with rfl | ⟨path, rfl⟩
      · exact ⟨[], .inl rfl, by simp [hdot]⟩
      · exact ⟨path.toList ++ ['.'], .inr ⟨_, rfl⟩, by simp [hdot]⟩
    exact ⟨_, _, Text.cutLast_eq_some_iff.2 ⟨htable, hname⟩, lastSegment_append hfront hdataset⟩
  · rintro ⟨before, name, hcut, hsegment⟩
    obtain ⟨htable, hname⟩ := Text.cutLast_eq_some_iff.1 hcut
    obtain ⟨front, hfront, hbefore, hdataset⟩ := exists_front before
    rw [hsegment] at hbefore hdataset
    refine ⟨hdataset, String.ofList name, by rwa [String.toList_ofList], ?_⟩
    rcases hfront with rfl | ⟨path, rfl⟩
    · refine .inl (String.toList_inj.1 ?_)
      simp [htable, hbefore, hdot]
    · refine .inr ⟨String.ofList path, String.toList_inj.1 ?_⟩
      simp [htable, hbefore, hdot]

namespace Naming

/-- The dataset type that a dataset without its suffix stands for. -/
def typeOfStem (stem : String) : String :=
  if stem = "" then "default" else stem

/-- The dataset type of a table is read off its dataset. -/
theorem datasetType?_of_isDatasetOf {n : Naming} (hsuffix : n.datasetSuffix ≠ "")
    {dataset table : String} (h : IsDatasetOf dataset table) :
    n.datasetType? table = (dropSuffix? n.datasetSuffix.toList dataset.toList).map
      fun stem => typeOfStem (String.ofList stem) := by
  obtain ⟨before, name, hcut, hsegment⟩ := isDatasetOf_iff.1 h
  have htype : ∀ stem : List Char, (if stem.isEmpty then "default" else String.ofList stem) =
      typeOfStem (String.ofList stem) := by
    intro stem
    cases stem with
    | nil => rfl
    | cons c cs =>
      have hne : String.ofList (c :: cs) ≠ "" := by simp
      rw [typeOfStem, if_neg hne]
      rfl
  rw [datasetType?, if_neg hsuffix, hcut]
  simp only [hsegment, htype]

/-- A table without a dataset is not federated. -/
theorem exists_isDatasetOf {n : Naming} {table type : String}
    (h : n.datasetType? table = some type) : ∃ dataset, IsDatasetOf dataset table := by
  rw [datasetType?] at h
  split at h
  · cases h
  · split at h
    · cases h
    · next before name hcut =>
      exact ⟨String.ofList (Text.lastSegment '.' before),
        isDatasetOf_iff.2 ⟨before, name, hcut, String.toList_ofList.symm⟩⟩

/-- **The dataset type is what the dataset has before the suffix.** -/
theorem datasetType?_eq_some_iff {n : Naming} (hsuffix : n.datasetSuffix ≠ "")
    {table type : String} :
    n.datasetType? table = some type ↔ ∃ dataset stem ending : String,
      IsDatasetOf dataset table ∧ dataset = stem ++ ending ∧
        Text.eqIgnoreCase ending n.datasetSuffix = true ∧ typeOfStem stem = type := by
  constructor
  · intro h
    obtain ⟨dataset, hdataset⟩ := exists_isDatasetOf h
    rw [datasetType?_of_isDatasetOf hsuffix hdataset, Option.map_eq_some_iff] at h
    obtain ⟨stem, hstem, htype⟩ := h
    obtain ⟨ending, heq, hending⟩ := dropSuffix?_eq_some_iff.1 hstem
    refine ⟨dataset, String.ofList stem, String.ofList ending, hdataset, ?_, ?_, htype⟩
    · rw [← String.ofList_append, ← heq, String.ofList_toList]
    · rw [Text.eqIgnoreCase_iff, Text.lower, String.toList_ofList, hending, Text.lower]
  · rintro ⟨_, stem, ending, hdataset, rfl, hending, htype⟩
    have hstem : dropSuffix? n.datasetSuffix.toList (stem ++ ending).toList = some stem.toList :=
      dropSuffix?_eq_some_iff.2
        ⟨ending.toList, String.toList_append, Text.eqIgnoreCase_iff.1 hending⟩
    rw [datasetType?_of_isDatasetOf hsuffix hdataset, hstem, Option.map_some,
      String.ofList_toList, htype]

/-- **Federated names are told exactly.** A table is federated, with a given dataset type, if and
only if its dataset ends in the suffix up to ASCII case and has before it the type as it is
written, or nothing where the type is `default`. The bytes of the dataset that stand before the
suffix, counted in small letters, end where a character does, and the type is read off them.
Without a suffix no table is federated. -/
theorem datasetType?_decided (n : Naming) (table : String) :
    (n.datasetSuffix = "" → n.datasetType? table = none) ∧
    (n.datasetSuffix ≠ "" →
      (∀ type, n.datasetType? table = some type ↔ ∃ dataset stem ending : String,
        IsDatasetOf dataset table ∧ dataset = stem ++ ending ∧
          Text.eqIgnoreCase ending n.datasetSuffix = true ∧
          type = if stem = "" then "default" else stem) ∧
      ∀ dataset bytes, IsDatasetOf dataset table →
        Text.bytesBefore? n.datasetSuffix dataset = some bytes →
        (String.Pos.Raw.mk bytes).IsValid dataset ∧
        ∃ stem : String, stem.toByteArray = dataset.toByteArray.extract 0 bytes ∧
          n.datasetType? table = some (if stem = "" then "default" else stem)) := by
  refine ⟨fun hnone => if_pos hnone, fun hsuffix => ⟨fun type => ?_, fun dataset bytes => ?_⟩⟩
  · rw [datasetType?_eq_some_iff hsuffix]
    simp only [typeOfStem, eq_comm (b := type)]
  · intro hdataset hbytes
    obtain ⟨stem, ending, rfl, hending, rfl⟩ := Text.bytesBefore?_eq_some_iff.1 hbytes
    refine ⟨Text.isValid_utf8ByteSize_append stem ending, stem, ?_, ?_⟩
    · rw [String.toByteArray_append]
      exact (ByteArray.extract_append_eq_left rfl).symm
    · exact (datasetType?_eq_some_iff hsuffix).2 ⟨_, stem, ending, hdataset, rfl, hending, rfl⟩

/-- A convention whose suffix has a letter outside ASCII. -/
def accented : Naming where
  datasetSuffix := "_äQF"

/-- The type ends in a letter of two bytes. Of the letters of the suffix, only those of ASCII may be
written in the other case. -/
theorem datasetType?_decided_accented :
    accented.datasetSuffix ≠ "" ∧ IsDatasetOf "Maß_äqf" "eu.crm.Maß_äqf.Clicks" ∧
      Text.bytesBefore? accented.datasetSuffix "Maß_äqf" = some 4 ∧
      (String.Pos.Raw.mk 4).IsValid "Maß_äqf" ∧
      accented.datasetType? "eu.crm.Maß_äqf.Clicks" = some "Maß" ∧
      accented.datasetType? "eu.crm.Maß_Äqf.Clicks" = none := by
  have hsuffix : accented.datasetSuffix ≠ "" := by decide
  have hdataset : IsDatasetOf "Maß_äqf" "eu.crm.Maß_äqf.Clicks" :=
    ⟨by decide, "Clicks", by decide, .inr ⟨"eu.crm", by decide⟩⟩
  have hbytes : Text.bytesBefore? accented.datasetSuffix "Maß_äqf" = some 4 := by decide +kernel
  obtain ⟨htype, hslice⟩ := (datasetType?_decided accented "eu.crm.Maß_äqf.Clicks").2 hsuffix
  obtain ⟨hvalid, -⟩ := hslice "Maß_äqf" 4 hdataset hbytes
  refine ⟨hsuffix, hdataset, hbytes, hvalid, ?_, by decide +kernel⟩
  exact (htype "Maß").2 ⟨_, "Maß", "_äqf", hdataset, by decide, by decide, rfl⟩

end Naming

end QuerySplit
