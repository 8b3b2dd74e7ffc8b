import Cascette.Manifest.Tag

/-!
# Files and tags as a relation

The calls of a manifest builder on an abstract state: the files with an identity each and the tags,
in the order in which they were added, and the set of the pairs of a file and a tag. `Denotes` says
that the masks of a manifest stand for such a state; every call that the two builders share keeps
it.
-/

namespace Cascette.Manifest

open Lib List Bool Function BitMask

/-- A call of a builder; `α` is what a file is added with. -/
inductive TaggingOp (α : Type) where
  | addTag (name : Text) (tagType : TagType)
  | addFile (file : α)
  | associate (fileIndex : Nat) (tagName : Text)
  | disassociate (fileIndex : Nat) (tagName : Text)
  | removeFile (fileIndex : Nat)
  | removeTag (tagName : Text)

/-- Files are pairs of an identity and the file; `next` is the identity of the next one. -/
structure Tagging (φ : Type) where
  files : List (Nat × φ)
  tags : List (Text × TagType)
  pairs : Set (Nat × Text)
  next : Nat

variable {α φ : Type}

namespace Tagging

def empty : Tagging φ := ⟨[], [], ∅, 0⟩

def names (t : Tagging φ) : List Text := t.tags.map Prod.fst

def addTag (t : Tagging φ) (name : Text) (tagType : TagType) : Tagging φ :=
  { t with tags := t.tags ++ [(name, tagType)] }

def addFile (t : Tagging φ) (file : φ) : Tagging φ :=
  { t with files := t.files ++ [(t.next, file)], next := t.next + 1 }

/-- The pair of the file at an index and a tag, if both are there. -/
def pair? (t : Tagging φ) (fileIndex : Nat) (tagName : Text) : Option (Nat × Text) :=
  if tagName ∈ t.names then t.files[fileIndex]?.map fun file => (file.1, tagName) else none

def associate (t : Tagging φ) (pair : Nat × Text) : Tagging φ :=
  { t with pairs := insert pair t.pairs }

def disassociate (t : Tagging φ) (pair : Nat × Text) : Tagging φ :=
  { t with pairs := t.pairs \ {pair} }

/-- The pairs of the file go with it. -/
def removeFile (t : Tagging φ) (fileIndex id : Nat) : Tagging φ :=
  { t with
    files := t.files.eraseIdx fileIndex
    pairs := {pair ∈ t.pairs | pair.1 ≠ id} }

/-- The pairs of the tag go with it. -/
def removeTag (t : Tagging φ) (tagName : Text) : Tagging φ :=
  { t with
    tags := t.tags.filter fun tag => tag.1 ≠ tagName
    pairs := {pair ∈ t.pairs | pair.2 ≠ tagName} }

/-- One call; `entry` makes the file, and a call that names no file or no tag changes nothing. -/
def step (entry : α → Option φ) (t : Tagging φ) : TaggingOp α → Tagging φ
  | .addTag name tagType => t.addTag name tagType
  | .addFile file => (entry file).elim t t.addFile
  | .associate fileIndex tagName => (t.pair? fileIndex tagName).elim t t.associate
  | .disassociate fileIndex tagName => (t.pair? fileIndex tagName).elim t t.disassociate
  | .removeFile fileIndex => t.files[fileIndex]?.elim t fun file => t.removeFile fileIndex file.1
  | .removeTag tagName => t.removeTag tagName

def run (entry : α → Option φ) (t : Tagging φ) (ops : List (TaggingOp α)) : Tagging φ :=
  ops.foldl (step entry) t

/-- A tag is added under a name that no tag has. -/
def Fresh (t : Tagging φ) : TaggingOp α → Prop
  | .addTag name _ => name ∉ t.names
  | _ => True

/-- Every tag of the calls is added under a new name. -/
def FreshNames (entry : α → Option φ) (t : Tagging φ) : List (TaggingOp α) → Prop
  | [] => True
  | op :: ops => t.Fresh op ∧ FreshNames entry (t.step entry op) ops

/-! ## Well-formed states -/

structure WellFormed (t : Tagging φ) : Prop where
  ids : (t.files.map Prod.fst).Nodup
  idsLt : ∀ file ∈ t.files, file.1 < t.next
  names : t.names.Nodup
  pairsLt : ∀ pair ∈ t.pairs, pair.1 < t.next
  pairsTag : ∀ pair ∈ t.pairs, pair.2 ∈ t.names

variable {t : Tagging φ} {pair : Nat × Text} {fileIndex : Nat} {tagName name : Text}
  (entry : α → Option φ)

theorem WellFormed.restrict (h : t.WellFormed) {pairs : Set (Nat × Text)}
    (hPairs : pairs ⊆ t.pairs) : ({ t with pairs := pairs } : Tagging φ).WellFormed where
  ids := h.ids
  idsLt := h.idsLt
  names := h.names
  pairsLt pair hPair := h.pairsLt pair (hPairs hPair)
  pairsTag pair hPair := h.pairsTag pair (hPairs hPair)

theorem names_addTag (t : Tagging φ) (name : Text) (tagType : TagType) :
    (t.addTag name tagType).names = t.names ++ [name] := map_append

variable (h : t.WellFormed)
include h

theorem WellFormed.addTag (hName : name ∉ t.names)
    (tagType : TagType) : (t.addTag name tagType).WellFormed where
  ids := h.ids
  idsLt := h.idsLt
  names := by
    rw [names_addTag, ← concat_eq_append]
    exact h.names.concat hName
  pairsLt := h.pairsLt
  pairsTag pair hPair := by
    rw [names_addTag]
    exact mem_append_left _ (h.pairsTag pair hPair)

theorem WellFormed.next_notMem : t.next ∉ t.files.map Prod.fst := by
  intro hMem
  obtain ⟨file, hFile, hEq⟩ := mem_map.mp hMem
  exact absurd (h.idsLt file hFile) (by omega)

theorem WellFormed.addFile (file : φ) : (t.addFile file).WellFormed where
  ids := by
    change ((t.files ++ [(t.next, file)]).map Prod.fst).Nodup
    rw [map_append, map_singleton, ← concat_eq_append]
    exact h.ids.concat h.next_notMem
  idsLt f hFile := by
    rcases mem_append.mp hFile with hOld | hNew
    · exact Nat.lt_succ_of_lt (h.idsLt f hOld)
    · rw [mem_singleton.mp hNew]
      exact Nat.lt_succ_self t.next
  names := h.names
  pairsLt pair hPair := Nat.lt_succ_of_lt (h.pairsLt pair hPair)
  pairsTag := h.pairsTag

omit h

theorem pair?_eq_some :
    t.pair? fileIndex tagName = some pair ↔
      tagName ∈ t.names ∧ ∃ file, t.files[fileIndex]? = some file ∧ pair = (file.1, tagName) := by
  unfold pair?
  split_ifs with hMem
  · rw [Option.map_eq_some_iff, and_iff_right hMem]
    exact ⟨fun ⟨file, hFile, hEq⟩ => ⟨file, hFile, hEq.symm⟩,
      fun ⟨file, hFile, hEq⟩ => ⟨file, hFile, hEq.symm⟩⟩
  · exact iff_of_false nofun fun h => hMem h.1

theorem WellFormed.associate (h : t.WellFormed) (hPair : t.pair? fileIndex tagName = some pair) :
    (t.associate pair).WellFormed := by
  obtain ⟨hTag, file, hFile, rfl⟩ := pair?_eq_some.mp hPair
  refine ⟨h.ids, h.idsLt, h.names, fun p hp => ?_, fun p hp => ?_⟩
  · rcases Set.mem_insert_iff.mp hp with rfl | hOld
    · exact h.idsLt file (mem_of_getElem? hFile)
    · exact h.pairsLt p hOld
  · rcases Set.mem_insert_iff.mp hp with rfl | hOld
    · exact hTag
    · exact h.pairsTag p hOld

theorem WellFormed.removeFile (h : t.WellFormed) (fileIndex id : Nat) :
    (t.removeFile fileIndex id).WellFormed where
  ids := by
    refine h.ids.sublist ?_
    exact (eraseIdx_sublist t.files fileIndex).map Prod.fst
  idsLt file hFile := h.idsLt file (mem_of_mem_eraseIdx hFile)
  names := h.names
  pairsLt pair hPair := h.pairsLt pair hPair.1
  pairsTag pair hPair := h.pairsTag pair hPair.1

theorem names_removeTag (t : Tagging φ) (tagName : Text) :
    (t.removeTag tagName).names = t.names.filter (· ≠ tagName) := by
  rw [names, names, removeTag, filter_map]
  rfl

theorem WellFormed.removeTag (h : t.WellFormed) (tagName : Text) :
    (t.removeTag tagName).WellFormed where
  ids := h.ids
  idsLt := h.idsLt
  names := by
    rw [names_removeTag]
    exact h.names.filter _
  pairsLt pair hPair := h.pairsLt pair hPair.1
  pairsTag pair hPair := by
    rw [names_removeTag]
    exact mem_filter.mpr ⟨h.pairsTag pair hPair.1, decide_eq_true hPair.2⟩

def addedName : TaggingOp α → Option Text
  | .addTag name _ => some name
  | _ => none

theorem mem_names_of_elim {β : Type} {o : Option β} {f : β → Tagging φ}
    (h : name ∈ (o.elim t f).names) (hf : ∀ b, (f b).names = t.names) : name ∈ t.names := by
  cases o with
  | none => exact h
  | some b => exact hf b ▸ h

theorem names_step (t : Tagging φ) (op : TaggingOp α)
    (h : name ∈ (t.step entry op).names) : name ∈ t.names ∨ addedName op = some name := by
  cases op with
  | addTag name' tagType =>
    rw [show (t.step entry (.addTag name' tagType)).names = _ from names_addTag t name' tagType,
      mem_append, mem_singleton] at h
    exact h.imp_right fun hEq => congrArg some hEq.symm
  | addFile file =>
    exact Or.inl (mem_names_of_elim h fun _ => rfl)
  | associate fileIndex tagName =>
    exact Or.inl (mem_names_of_elim h fun _ => rfl)
  | disassociate fileIndex tagName =>
    exact Or.inl (mem_names_of_elim h fun _ => rfl)
  | removeFile fileIndex =>
    exact Or.inl (mem_names_of_elim h fun _ => rfl)
  | removeTag tagName =>
    rw [show (t.step entry (.removeTag tagName)).names = _ from names_removeTag t tagName] at h
    exact Or.inl (mem_filter.mp h).1

/-- Calls that add tags under distinct names, none of which a tag has, add them under new names. -/
theorem freshNames_of_nodup {ops : List (TaggingOp α)} (hNodup : (ops.filterMap addedName).Nodup)
    (hNew : ∀ name ∈ ops.filterMap addedName, name ∉ t.names) : t.FreshNames entry ops := by
  induction ops generalizing t with
  | nil => trivial
  | cons op ops ih =>
    have hSub : (ops.filterMap addedName).Sublist ((op :: ops).filterMap addedName) :=
      (sublist_cons_self op ops).filterMap addedName
    refine ⟨?_, ih (hNodup.sublist hSub) fun name hName hMem => ?_⟩
    · cases op with
      | addTag name tagType => exact hNew name (mem_filterMap.mpr ⟨_, mem_cons_self, rfl⟩)
      | _ => trivial
    · rcases names_step entry t op hMem with hOld | hAdded
      · exact hNew name (hSub.subset hName) hOld
      · rw [filterMap_cons_some hAdded, nodup_cons] at hNodup
        exact hNodup.1 hName

end Tagging

/-! ## What the masks denote -/

/-- The masks of the tags stand for the pairs: bit `i` of a tag is set exactly if there is a file
at `i` and its pair with the tag is in the relation. -/
structure Denotes (t : Tagging φ) (tags : List InstallTag) (entries : List φ) : Prop where
  inOrder : entries = t.files.map Prod.snd
  tagsInOrder : tags.map (fun tag => (tag.name, tag.tagType)) = t.tags
  masks : ∀ tag ∈ tags, tag.bitMask.length = divCeil entries.length 8
  bits : ∀ tag ∈ tags, ∀ i, tag.hasFile i = true ↔
    ∃ file, t.files[i]? = some file ∧ (file.1, tag.name) ∈ t.pairs

namespace Denotes

variable {t : Tagging φ} {tags : List InstallTag} {entries : List φ}

theorem length_files (h : Denotes t tags entries) : t.files.length = entries.length := by
  rw [h.inOrder, length_map]

theorem names (h : Denotes t tags entries) : tags.map (·.name) = t.names := by
  rw [Tagging.names, ← h.tagsInOrder, map_map]
  rfl

variable {tag : InstallTag} {i k fileIndex : Nat} {file : Nat × φ}

theorem hasFile_of_le (h : Denotes t tags entries) (hTag : tag ∈ tags) (hi : entries.length ≤ i) :
    tag.hasFile i = false := by
  rw [eq_false_iff]
  intro hHas
  obtain ⟨file, hFile, -⟩ := (h.bits tag hTag i).mp hHas
  have hLt := (List.getElem?_eq_some_iff.mp hFile).1
  rw [h.length_files] at hLt
  omega

theorem addTag (h : Denotes t tags entries) (hWf : t.WellFormed) {name : Text}
    (hName : name ∉ t.names) (tagType : TagType) :
    Denotes (t.addTag name tagType) (tags ++ [InstallTag.new name tagType entries.length])
      entries where
  inOrder := h.inOrder
  tagsInOrder := by
    rw [map_append, h.tagsInOrder]
    rfl
  masks tag hTag := by
    rcases mem_append.mp hTag with hOld | hNew
    · exact h.masks tag hOld
    · rw [mem_singleton.mp hNew]
      exact length_replicate
  bits tag hTag i := by
    rcases mem_append.mp hTag with hOld | hNew
    · exact h.bits tag hOld i
    · rw [mem_singleton.mp hNew]
      have hNone : (InstallTag.new name tagType entries.length).hasFile i = false :=
        test_replicate_zero _ i
      rw [hNone]
      refine iff_of_false false_ne_true ?_
      rintro ⟨file, -, hPair⟩
      exact hName (hWf.pairsTag _ hPair)

theorem divCeil_le_succ (n : Nat) : divCeil n 8 ≤ divCeil (n + 1) 8 := by
  unfold divCeil
  omega

theorem addFile (h : Denotes t tags entries) (hWf : t.WellFormed) (file : φ) :
    Denotes (t.addFile file) (tags.map (·.grow (divCeil (entries ++ [file]).length 8)))
      (entries ++ [file]) := by
  have hGrow : ∀ tag ∈ tags, (tag.grow (divCeil (entries ++ [file]).length 8)).bitMask.length =
      divCeil (entries ++ [file]).length 8 := by
    intro tag hTag
    have hLe := divCeil_le_succ entries.length
    have hLength := h.masks tag hTag
    rw [length_append, length_singleton]
    unfold InstallTag.grow
    split
    · exact resize_length _ _
    · omega
  refine ⟨?_, ?_, fun tag hTag => ?_, fun tag hTag i => ?_⟩
  · rw [h.inOrder, Tagging.addFile, map_append]
    rfl
  · rw [map_map, ← show _ = (t.addFile file).tags from h.tagsInOrder]
    refine map_congr_left fun tag _ => ?_
    exact Prod.ext (tag.grow_same _).1 (tag.grow_same _).2
  · obtain ⟨original, hOriginal, rfl⟩ := mem_map.mp hTag
    exact hGrow original hOriginal
  · obtain ⟨original, hOriginal, rfl⟩ := mem_map.mp hTag
    rw [original.hasFile_grow, (original.grow_same _).1, h.bits original hOriginal]
    change _ ↔ ∃ f, (t.files ++ [(t.next, file)])[i]? = some f ∧ _ ∈ t.pairs
    constructor
    · rintro ⟨f, hFile, hPair⟩
      refine ⟨f, ?_, hPair⟩
      rw [List.getElem?_append_left (List.getElem?_eq_some_iff.mp hFile).1, hFile]
    · rintro ⟨f, hFile, hPair⟩
      rcases Nat.lt_or_ge i t.files.length with hLt | hGe
      · rw [List.getElem?_append_left hLt] at hFile
        exact ⟨f, hFile, hPair⟩
      · rw [getElem?_append_right hGe] at hFile
        rw [mem_singleton.mp (mem_of_getElem? hFile)] at hPair
        exact absurd (hWf.pairsLt _ hPair) (lt_irrefl t.next)

theorem index_unique {β γ : Type} {key : β → γ} {bs : List β} (hNodup : (bs.map key).Nodup)
    {i j : Nat} {a b : β} (hi : bs[i]? = some a) (hj : bs[j]? = some b) (hKey : key a = key b) :
    i = j := by
  have hi' : (bs.map key)[i]? = some (key a) := by rw [getElem?_map, hi]; rfl
  have hj' : (bs.map key)[j]? = some (key b) := by rw [getElem?_map, hj]; rfl
  exact (List.getElem?_inj (List.getElem?_eq_some_iff.mp hi').1 hNodup).mp
    (hi'.trans (hKey ▸ hj'.symm))

theorem update (h : Denotes t tags entries) (hWf : t.WellFormed) (hTag : tags[k]? = some tag)
    {mask : Bytes} (hLength : mask.length = tag.bitMask.length) {pairs : Set (Nat × Text)}
    (hBits : ∀ i, BitMask.test mask i = true ↔ ∃ file, t.files[i]? = some file ∧ (file.1, tag.name)
      ∈ pairs)
    (hOther : ∀ pair : Nat × Text, pair.2 ≠ tag.name → (pair ∈ pairs ↔ pair ∈ t.pairs)) :
    Denotes { t with pairs := pairs } (tags.set k { tag with bitMask := mask }) entries := by
  have hk := (List.getElem?_eq_some_iff.mp hTag).1
  have hMem : ∀ changed ∈ tags.set k { tag with bitMask := mask },
      changed = { tag with bitMask := mask } ∨ changed ∈ tags ∧ changed.name ≠ tag.name := by
    intro changed hChanged
    obtain ⟨j, hj⟩ := mem_iff_getElem?.mp hChanged
    rw [getElem?_set] at hj
    split_ifs at hj with hNe
    · exact Or.inl (Option.some.inj hj).symm
    · refine Or.inr ⟨mem_of_getElem? hj, fun hName => hNe ?_⟩
      have hNames := hWf.names
      rw [← h.names] at hNames
      exact index_unique hNames hTag hj hName.symm
  refine ⟨h.inOrder, ?_, fun changed hChanged => ?_, fun changed hChanged i => ?_⟩
  · change _ = t.tags
    rw [map_set, ← h.tagsInOrder]
    refine ext_getElem? fun j => ?_
    rw [getElem?_set]
    split
    next hEq =>
      rw [← hEq, length_map, if_pos hk, getElem?_map, hTag]
      rfl
    · rfl
  · rcases hMem changed hChanged with rfl | ⟨hOld, -⟩
    · exact hLength.trans (h.masks tag (mem_of_getElem? hTag))
    · exact h.masks changed hOld
  · rcases hMem changed hChanged with rfl | ⟨hOld, hName⟩
    · exact hBits i
    · rw [h.bits changed hOld i]
      exact exists_congr fun file => and_congr_right fun _ => (hOther (file.1, changed.name)
        hName).symm

variable (h : Denotes t tags entries)
include h

theorem index_lt (hFile : t.files[i]? = some file) : i < entries.length := by
  rw [← h.length_files]
  exact (List.getElem?_eq_some_iff.mp hFile).1

variable (hWf : t.WellFormed)
include hWf

theorem associate (hTag : tags[k]? = some tag) (hFile : t.files[fileIndex]? = some file) :
    Denotes (t.associate (file.1, tag.name)) (tags.modify k (·.addFile fileIndex)) entries := by
  have hMem := mem_of_getElem? hTag
  have hLt := h.index_lt hFile
  have hLength : (BitMask.set tag.bitMask fileIndex).length = tag.bitMask.length := by
    apply BitMask.length_set
    rw [h.masks tag hMem, divCeil]
    omega
  rw [modify_eq_set_getElem?, hTag]
  refine h.update hWf hTag hLength (fun i => ?_) fun pair hName => ?_
  · rw [test_set, or_eq_true, decide_eq_true_iff, show BitMask.test tag.bitMask i =
      true ↔
      _ from h.bits tag hMem i]
    constructor
    · rintro (rfl | ⟨f, hf, hPair⟩)
      · exact ⟨file, hFile, Set.mem_insert _ _⟩
      · exact ⟨f, hf, Set.mem_insert_of_mem _ hPair⟩
    · rintro ⟨f, hf, hPair⟩
      rcases Set.mem_insert_iff.mp hPair with hEq | hOld
      · exact Or.inl (index_unique hWf.ids hFile hf (Prod.ext_iff.mp hEq).1.symm)
      · exact Or.inr ⟨f, hf, hOld⟩
  · exact Set.mem_insert_iff.trans (or_iff_right fun hEq => hName (congrArg Prod.snd hEq))

theorem disassociate (hTag : tags[k]? = some tag) (hFile : t.files[fileIndex]? = some file) :
    Denotes (t.disassociate (file.1, tag.name)) (tags.modify k (·.removeFile fileIndex))
      entries := by
  have hMem := mem_of_getElem? hTag
  rw [modify_eq_set_getElem?, hTag]
  refine h.update hWf hTag (length_clear _ _) (fun i => ?_) fun pair hName => ?_
  · rw [test_clear, and_eq_true, not_eq_true', decide_eq_false_iff_not,
      show BitMask.test tag.bitMask i = true ↔ _ from h.bits tag hMem i]
    constructor
    · rintro ⟨hNe, f, hf, hPair⟩
      refine ⟨f, hf, hPair, fun hEq => hNe ?_⟩
      exact index_unique hWf.ids hFile hf (Prod.ext_iff.mp hEq).1.symm
    · rintro ⟨f, hf, hPair, hNot⟩
      refine ⟨fun hEq => hNot ?_, f, hf, hPair⟩
      rw [hEq, hf] at hFile
      rw [Option.some.inj hFile]
      rfl
  · exact and_iff_left fun hEq => hName (congrArg Prod.snd hEq)

theorem removeFile (hFile : t.files[fileIndex]? = some file) {remove : Bytes → Bytes}
    (hLength : ∀ tag ∈ tags, (remove tag.bitMask).length = divCeil (entries.eraseIdx
      fileIndex).length 8)
    (hTest : ∀ tag ∈ tags, ∀ i, BitMask.test (remove tag.bitMask) i = BitMask.test tag.bitMask
      (InstallTag.oldIndex fileIndex i)) :
    Denotes (t.removeFile fileIndex file.1)
      (tags.map fun tag => { tag with bitMask := remove tag.bitMask })
      (entries.eraseIdx fileIndex) := by
  refine ⟨?_, ?_, fun tag hTag => ?_, fun tag hTag i => ?_⟩
  · rw [h.inOrder, eraseIdx_map]
    rfl
  · rw [map_map, ← show _ = (t.removeFile fileIndex file.1).tags from h.tagsInOrder]
    rfl
  · obtain ⟨original, hOriginal, rfl⟩ := mem_map.mp hTag
    exact hLength original hOriginal
  · obtain ⟨original, hOriginal, rfl⟩ := mem_map.mp hTag
    have hGet : (t.files.eraseIdx fileIndex)[i]? = t.files[InstallTag.oldIndex fileIndex i]? := by
      rw [getElem?_eraseIdx, InstallTag.oldIndex]
      split <;> rfl
    have hNe : InstallTag.oldIndex fileIndex i ≠ fileIndex := by
      unfold InstallTag.oldIndex
      split <;> omega
    change BitMask.test (remove original.bitMask) i = true ↔
      ∃ f, (t.files.eraseIdx fileIndex)[i]? = some f ∧ _ ∈ t.pairs ∧ _
    rw [hTest original hOriginal, hGet, show BitMask.test original.bitMask _ = true ↔ _ from
      h.bits original hOriginal _]
    refine exists_congr fun f => and_congr_right fun hf => ?_
    exact (and_iff_left fun hId => hNe (index_unique hWf.ids hf hFile hId)).symm

omit h hWf

theorem eraseIdx_eq_filter {β γ : Type} [DecidableEq γ] {key : β → γ} {bs : List β} {b : β}
    (hNodup : (bs.map key).Nodup) (hk : bs[k]? = some b) :
    bs.eraseIdx k = bs.filter fun b' => key b' ≠ key b := by
  induction bs generalizing k with
  | nil => cases hk
  | cons c bs ih =>
    rw [map_cons, nodup_cons] at hNodup
    cases k with
    | zero =>
      cases hk
      have hRest : bs.filter (fun b' => key b' ≠ key b) = bs := by
        refine filter_eq_self.mpr fun b' hb' => decide_eq_true fun hEq => ?_
        exact hNodup.1 (hEq ▸ mem_map_of_mem hb')
      rw [filter_cons, if_neg (by simp), hRest]
      rfl
    | succ k =>
      have hNe : key c ≠ key b := fun hEq => hNodup.1 (hEq ▸ mem_map_of_mem (mem_of_getElem? hk))
      rw [filter_cons, if_pos (decide_eq_true hNe), eraseIdx_cons_succ, ih hNodup.2 hk]

theorem removeTag (h : Denotes t tags entries) (hWf : t.WellFormed) (hTag : tags[k]? = some tag) :
    Denotes (t.removeTag tag.name) (tags.eraseIdx k) entries := by
  have hNames := hWf.names
  rw [← h.names] at hNames
  rw [eraseIdx_eq_filter hNames hTag]
  refine ⟨h.inOrder, ?_, fun other hOther => ?_, fun other hOther i => ?_⟩
  · rw [Tagging.removeTag, ← h.tagsInOrder, filter_map]
    rfl
  · exact h.masks other (mem_filter.mp hOther).1
  · obtain ⟨hMem, hName⟩ := mem_filter.mp hOther
    rw [h.bits other hMem i]
    exact exists_congr fun file => and_congr_right fun _ =>
      (and_iff_left (of_decide_eq_true hName)).symm

end Denotes

/-! ## The map from names to positions -/

def Indexed (names : List Text) (index : Text → Option Nat) : Prop :=
  ∀ name k, index name = some k ↔ names[k]? = some name

theorem indexed_nil : Indexed [] fun _ => none := fun _ _ => iff_of_false nofun nofun

namespace Indexed

variable {names : List Text} {index : Text → Option Nat}

theorem addName (h : Indexed names index) {name : Text} (hName : name ∉ names) :
    Indexed (names ++ [name]) (Function.update index name (some names.length)) := by
  intro other k
  by_cases hOther : other = name
  · rw [hOther, update_self, Option.some.injEq]
    constructor
    · rintro rfl
      exact getElem?_concat_length
    · intro hGet
      rcases Nat.lt_or_ge k names.length with hLt | hGe
      · rw [List.getElem?_append_left hLt] at hGet
        exact absurd (mem_of_getElem? hGet) hName
      · have hLe := (List.getElem?_eq_some_iff.mp hGet).1
        rw [length_append, length_singleton] at hLe
        omega
  · rw [update_of_ne hOther, h other k]
    constructor
    · intro hGet
      rw [List.getElem?_append_left (List.getElem?_eq_some_iff.mp hGet).1, hGet]
    · intro hGet
      rcases Nat.lt_or_ge k names.length with hLt | hGe
      · rwa [List.getElem?_append_left hLt] at hGet
      · rw [getElem?_append_right hGe] at hGet
        exact absurd (mem_singleton.mp (mem_of_getElem? hGet)) hOther

theorem removeName (h : Indexed names index) {name : Text} {k : Nat} (hk : index name = some k) :
    Indexed (names.eraseIdx k) fun other =>
      (Function.update index name none other).map fun i => if k < i then i - 1 else i := by
  intro other j
  rw [getElem?_eraseIdx, Option.map_eq_some_iff]
  by_cases hOther : other = name
  · -- the removed name is at no other position
    rw [hOther, update_self]
    refine iff_of_false (fun ⟨_, hNone, _⟩ => nomatch hNone) fun hGet => ?_
    split at hGet
    · have hIndex := (h name j).mpr hGet
      rw [hk] at hIndex
      have hEq := Option.some.inj hIndex
      omega
    · have hIndex := (h name (j + 1)).mpr hGet
      rw [hk] at hIndex
      have hEq := Option.some.inj hIndex
      omega
  · rw [update_of_ne hOther]
    constructor
    · rintro ⟨i, hi, rfl⟩
      have hGet := (h other i).mp hi
      have hNe : i ≠ k := by
        rintro rfl
        exact hOther (Option.some.inj (hGet.symm.trans ((h name i).mp hk)))
      split
      · rw [if_neg (by omega), Nat.sub_add_cancel (by omega), hGet]
      · rw [if_pos (by omega), hGet]
    · intro hGet
      split_ifs at hGet with hLt
      · exact ⟨j, (h other j).mpr hGet, if_neg (by omega)⟩
      · exact ⟨j + 1, (h other (j + 1)).mpr hGet, by rw [if_pos (by omega)]; rfl⟩

end Indexed

theorem indexed_indexByName {tags : List InstallTag} (h : (tags.map (·.name)).Nodup) :
    Indexed (tags.map (·.name)) (InstallTag.indexByName tags) := by
  unfold InstallTag.indexByName
  generalize tags.map (·.name) = names at h
  induction names using reverseRecOn with
  | nil => exact indexed_nil
  | append_singleton names name ih =>
    rw [← concat_eq_append, nodup_concat] at h
    rw [zipIdx_append, foldl_append]
    have hNew := (ih h.2).addName h.1
    rwa [← Nat.zero_add names.length] at hNew

/-! ## Builders that follow the relation -/

/-- The tags, the files and the map of a builder follow the state `t`. -/
structure Tracks (t : Tagging φ) (tags : List InstallTag) (entries : List φ)
    (index : Text → Option Nat) : Prop where
  wellFormed : t.WellFormed
  denotes : Denotes t tags entries
  indexed : Indexed t.names index

theorem tracks_empty : Tracks (Tagging.empty : Tagging φ) [] [] fun _ => none :=
  ⟨⟨nodup_nil, nofun, nodup_nil, nofun, nofun⟩, ⟨rfl, rfl, nofun, nofun⟩, indexed_nil⟩

namespace Tracks

variable {t : Tagging φ} {tags : List InstallTag} {entries : List φ} {index : Text → Option Nat}

variable {name : Text} {k fileIndex : Nat}

section

variable (h : Tracks t tags entries index)

include h

theorem exists_tag (hk : index name = some k) : ∃ tag, tags[k]? = some tag ∧ tag.name = name := by
  have hGet := (h.indexed name k).mp hk
  rw [← h.denotes.names, getElem?_map, Option.map_eq_some_iff] at hGet
  exact hGet

theorem mem_names_iff : name ∈ t.names ↔ ∃ k, index name = some k := by
  rw [mem_iff_getElem?]
  exact exists_congr fun k => (h.indexed name k).symm

theorem exists_file (hIndex : fileIndex < entries.length) :
    ∃ file, t.files[fileIndex]? = some file := by
  rw [← h.denotes.length_files] at hIndex
  exact ⟨_, getElem?_eq_getElem hIndex⟩

theorem files_eq_none (hIndex : entries.length ≤ fileIndex) : t.files[fileIndex]? = none := by
  rw [← h.denotes.length_files] at hIndex
  exact getElem?_eq_none hIndex

theorem addTag (hName : name ∉ t.names) (tagType : TagType) :
    Tracks (t.addTag name tagType) (tags ++ [InstallTag.new name tagType entries.length]) entries
      (Function.update index name (some tags.length)) := by
  refine ⟨h.wellFormed.addTag hName tagType, h.denotes.addTag h.wellFormed hName tagType, ?_⟩
  have hIndexed := h.indexed.addName hName
  rwa [← Tagging.names_addTag t name tagType, ← h.denotes.names, length_map] at hIndexed

theorem addFile (file : φ) :
    Tracks (t.addFile file) (tags.map (·.grow (divCeil (entries ++ [file]).length 8)))
      (entries ++ [file]) index :=
  ⟨h.wellFormed.addFile file, h.denotes.addFile h.wellFormed file, h.indexed⟩

theorem pair?_eq_none
    (hNone : entries.length ≤ fileIndex ∨ index name = none) : t.pair? fileIndex name = none := by
  rw [Option.eq_none_iff_forall_ne_some]
  intro pair hPair
  obtain ⟨hName, file, hFile, -⟩ := Tagging.pair?_eq_some.mp hPair
  rcases hNone with hIndex | hIndex
  · rw [h.files_eq_none hIndex] at hFile
    cases hFile
  · obtain ⟨k, hk⟩ := h.mem_names_iff.mp hName
    rw [hIndex] at hk
    cases hk

variable (hIndex : fileIndex < entries.length)
include hIndex

variable (hk : index name = some k)
include hk

theorem exists_pair :
    ∃ file tag, t.files[fileIndex]? = some file ∧ tags[k]? = some tag ∧ tag.name = name ∧
      t.pair? fileIndex name = some (file.1, name) := by
  obtain ⟨file, hFile⟩ := h.exists_file hIndex
  obtain ⟨tag, hTag, hName⟩ := h.exists_tag hk
  exact ⟨file, tag, hFile, hTag, hName,
    Tagging.pair?_eq_some.mpr ⟨h.mem_names_iff.mpr ⟨k, hk⟩, file, hFile, rfl⟩⟩

theorem associate :
    Tracks ((t.pair? fileIndex name).elim t t.associate) (tags.modify k (·.addFile fileIndex))
      entries index := by
  obtain ⟨file, tag, hFile, hTag, rfl, hPair⟩ := h.exists_pair hIndex hk
  rw [hPair]
  exact ⟨h.wellFormed.associate hPair, h.denotes.associate h.wellFormed hTag hFile, h.indexed⟩

theorem disassociate :
    Tracks ((t.pair? fileIndex name).elim t t.disassociate)
      (tags.modify k (·.removeFile fileIndex)) entries index := by
  obtain ⟨file, tag, hFile, hTag, rfl, hPair⟩ := h.exists_pair hIndex hk
  rw [hPair]
  exact ⟨h.wellFormed.restrict Set.sdiff_subset,
    h.denotes.disassociate h.wellFormed hTag hFile, h.indexed⟩

omit hk

theorem removeFile {remove : Bytes → Bytes}
    (hLength : ∀ mask, (remove mask).length = divCeil (entries.eraseIdx fileIndex).length 8)
    (hTest : ∀ mask : Bytes, mask.length = divCeil entries.length 8 → (∀ i, entries.length ≤ i →
      BitMask.test mask i = false) → ∀ i, BitMask.test (remove mask) i = BitMask.test mask
        (InstallTag.oldIndex fileIndex i)) :
    Tracks (t.files[fileIndex]?.elim t fun file => t.removeFile fileIndex file.1)
      (tags.map fun tag => { tag with bitMask := remove tag.bitMask })
      (entries.eraseIdx fileIndex) index := by
  obtain ⟨file, hFile⟩ := h.exists_file hIndex
  have hDenotes := h.denotes.removeFile h.wellFormed hFile (fun tag _ => hLength tag.bitMask)
    fun tag hTag => hTest tag.bitMask (h.denotes.masks tag hTag) fun i hi =>
      h.denotes.hasFile_of_le hTag hi
  rw [hFile]
  exact ⟨h.wellFormed.removeFile fileIndex file.1, hDenotes, h.indexed⟩

omit hIndex

theorem removeTag (hk : index name = some k)
    {index' : Text → Option Nat} (hIndexed : Indexed (t.names.eraseIdx k) index') :
    Tracks (t.removeTag name) (tags.eraseIdx k) entries index' := by
  obtain ⟨tag, hTag, rfl⟩ := h.exists_tag hk
  have hDenotes := h.denotes.removeTag h.wellFormed hTag
  rw [← h.denotes.names, eraseIdx_map, hDenotes.names] at hIndexed
  exact ⟨h.wellFormed.removeTag tag.name, hDenotes, hIndexed⟩

theorem removeTag_of_none (hNone : index name = none) : t.removeTag name = t := by
  have hName : name ∉ t.names := fun hMem => by
    obtain ⟨k, hk⟩ := h.mem_names_iff.mp hMem
    rw [hNone] at hk
    cases hk
  have hTags : t.tags.filter (fun tag => tag.1 ≠ name) = t.tags :=
    filter_eq_self.mpr fun tag hTag => decide_eq_true fun hEq => hName (hEq ▸ mem_map_of_mem hTag)
  have hPairs : {pair ∈ t.pairs | pair.2 ≠ name} = t.pairs :=
    Set.sep_eq_self_iff_mem_true.mpr fun pair hPair hEq =>
      hName (hEq ▸ h.wellFormed.pairsTag pair hPair)
  rw [Tagging.removeTag, hTags, hPairs]

end

end Tracks

end Cascette.Manifest
