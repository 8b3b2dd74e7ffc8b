import Cascette.Lib.Grouping
import Cascette.Manifest.Download
import Cascette.Manifest.InstallBuilder

/-!
# Queries by tags

A query names tags. The masks of the named tags of one type are united, and the files in the union
of every type are returned. Of tags of one name only the first is found; if no name is found, no
file is returned, although no type asks for anything then (`tagQuery_iff`).
-/

namespace Cascette.Manifest

open Lib List BitMask

def groupMask (maskLen : Nat) (group : List InstallTag) : Bytes :=
  (group.map InstallTag.bitMask).foldl (BitMask.combine (· ||| ·)) (List.replicate maskLen 0)

def resultMask (maskLen : Nat) (groups : List (List InstallTag)) : Bytes :=
  (groups.map (groupMask maskLen)).foldl (BitMask.combine (· &&& ·)) (List.replicate maskLen 0xff)

def namedTags (tags : List InstallTag) (tagNames : List Text) : List InstallTag :=
  tagNames.filterMap fun name => tags.find? (·.name = name)

section Query

-- the order in which a hash map gives its groups
variable (order : List (TagType × List InstallTag) → List (TagType × List InstallTag))

/-- The common body of both queries. -/
def tagQuery {α : Type} (tags : List InstallTag) (entries : List α) (tagNames : List Text) :
    List (α × Nat) :=
  if tagNames = [] then entries.zipIdx
  else
    let groups := group InstallTag.tagType (namedTags tags tagNames)
    if groups = [] then []
    else
      let mask := resultMask (divCeil entries.length 8) ((order groups).map Prod.snd)
      entries.zipIdx.filter fun entry => BitMask.test mask entry.2

def InstallManifest.getFilesForTagQuery (manifest : InstallManifest) :
    List Text → List (InstallFileEntry × Nat) := tagQuery order manifest.tags manifest.entries

def DownloadManifest.entriesByTagQuery (manifest : DownloadManifest) :
    List Text → List (DownloadFileEntry × Nat) := tagQuery order manifest.tags manifest.entries

end Query

/-! ## The files of a query -/

/-- For the type of every named tag, the file is under a named tag of that type. -/
def Matches (tags : List InstallTag) (tagNames : List Text) (i : Nat) : Prop :=
  ∀ tag ∈ tags, tag.name ∈ tagNames →
    ∃ other ∈ tags, other.name ∈ tagNames ∧ other.tagType = tag.tagType ∧ other.hasFile i = true

/-- The query gives the files that match. -/
def Answers {α : Type} (tags : List InstallTag) (entries : List α) (tagNames : List Text)
    (files : List (α × Nat)) : Prop :=
  ∀ entry i, (entry, i) ∈ files ↔ entries[i]? = some entry ∧ Matches tags tagNames i

/-- No two tags share a name that is asked for. -/
def Unambiguous (tags : List InstallTag) (tagNames : List Text) : Prop :=
  ∀ tag ∈ tags, tag.name ∈ tagNames → ∀ other ∈ tags, other.name = tag.name → other = tag

variable {tags : List InstallTag} {tagNames : List Text} {maskLen i : Nat}

theorem length_groupMask (maskLen : Nat) (group : List InstallTag) :
    (groupMask maskLen group).length = maskLen := by
  rw [groupMask]
  induction group using reverseRecOn with
  | nil => exact length_replicate
  | append_singleton group tag ih =>
    rw [map_append, foldl_append, map_singleton, foldl_cons, foldl_nil, length_combine, ih]

theorem test_resultMask (h : i / 8 < maskLen) (groups : List (List InstallTag)) :
    BitMask.test (resultMask maskLen groups) i = true ↔
      ∀ group ∈ groups, ∃ tag ∈ group, tag.hasFile i = true := by
  have hOnes : BitMask.test (replicate maskLen 0xff) i = true := by
    have hBits : ∀ k < 8, (255 : Nat).testBit (7 - k) = true := by decide
    rw [test_eq_testBit, getD_replicate _ h]
    exact hBits (i % 8) (Nat.mod_lt _ (by decide))
  rw [resultMask, test_foldl_and (by rwa [length_replicate])
    (forall_mem_map.mpr fun group _ => by rwa [length_groupMask]), and_iff_right hOnes,
    forall_mem_map]
  refine forall₂_congr fun group _ => ?_
  rw [groupMask, test_foldl_or (by rwa [length_replicate]), test_replicate_zero]
  simp [InstallTag.hasFile]

theorem mem_namedTags (h : Unambiguous tags tagNames) {tag : InstallTag} :
    tag ∈ namedTags tags tagNames ↔ tag ∈ tags ∧ tag.name ∈ tagNames := by
  rw [namedTags, mem_filterMap]
  constructor
  · rintro ⟨name, hName, hFind⟩
    have hEq : tag.name = name := by simpa using find?_some hFind
    exact ⟨mem_of_find?_eq_some hFind, hEq ▸ hName⟩
  · rintro ⟨hTag, hName⟩
    refine ⟨tag.name, hName, ?_⟩
    have hSome : (tags.find? (·.name = tag.name)).isSome := by
      rw [find?_isSome]
      exact ⟨tag, hTag, by simp⟩
    obtain ⟨found, hFound⟩ := Option.isSome_iff_exists.mp hSome
    have hEq : found.name = tag.name := by simpa using find?_some hFound
    rw [hFound, h tag hTag hName found (mem_of_find?_eq_some hFound) hEq]

variable {order : List (TagType × List InstallTag) → List (TagType × List InstallTag)}

theorem answers_tagQuery_iff {α : Type} (hOrder : ∀ groups, (order groups).Perm groups)
    (h : Unambiguous tags tagNames) (entries : List α) :
    Answers tags entries tagNames (tagQuery order tags entries tagNames) ↔
      tagNames = [] ∨ (∃ tag ∈ tags, tag.name ∈ tagNames) ∨ entries = [] := by
  have hGrouped := @grouped_group _ _ _ InstallTag.tagType (namedTags tags tagNames)
  unfold tagQuery
  split
  next hNil =>
    subst hNil
    simp [Answers, Matches, mem_zipIdx_iff_getElem?]
  rename_i hNames
  rw [or_iff_right hNames]
  dsimp only
  split_ifs with hGroups
  · -- no name is found, so every file matches
    have hNone : ¬ ∃ tag ∈ tags, tag.name ∈ tagNames := by
      rintro ⟨tag, hTag, hName⟩
      have hKey := hGrouped.mem_keys.mpr ⟨tag, (mem_namedTags h).mpr ⟨hTag, hName⟩, rfl⟩
      rw [hGroups] at hKey
      cases hKey
    have hMatches : ∀ i, Matches tags tagNames i :=
      fun i tag hTag hName => absurd ⟨tag, hTag, hName⟩ hNone
    rw [or_iff_right hNone, eq_nil_iff_forall_not_mem]
    simp only [Answers, hMatches, and_true, not_mem_nil, false_iff]
    rw [forall_congr' fun entry => by rw [← not_exists, ← mem_iff_getElem?]]
  · have hSome : ∃ tag ∈ tags, tag.name ∈ tagNames := by
      obtain ⟨⟨k, ys⟩, hMem⟩ := exists_mem_of_ne_nil _ hGroups
      obtain ⟨tag, hTag, -⟩ := hGrouped.mem_keys.mp (mem_map_of_mem hMem)
      exact ⟨tag, (mem_namedTags h).mp hTag⟩
    refine iff_of_true (fun entry i => ?_) (.inl hSome)
    rw [mem_filter, mem_zipIdx_iff_getElem?]
    refine and_congr_right fun hEntry => ?_
    have hByte : i / 8 < divCeil entries.length 8 := by
      have hLt := (List.getElem?_eq_some_iff.mp hEntry).1
      rw [divCeil]
      omega
    rw [test_resultMask hByte, forall_mem_map]
    simp only [(hOrder _).mem_iff]
    rw [hGrouped.forall_exists_iff]
    simp only [mem_namedTags h, and_imp, and_assoc, Matches]

open InstallManifestBuilder (sampleManifest)

end Cascette.Manifest
