import Cascette.Manifest.Tagging
import Cascette.Manifest.InstallBuilder
import Cascette.Manifest.DownloadBuilder

/-!
# Runs of the builders

Both builders follow the relation of `Tagging` through every sequence of calls. A call that fails
takes the builder with it; a run goes on with the copy that the caller made before the call, so
that such a call changes nothing.
-/

namespace Cascette.Manifest

open Lib List

/-- The builder after a call, or the copy made before it. -/
def keep {ε β : Type} (copy : β) (result : Except ε β) : β := result.toOption.getD copy

/-! ## Install manifests -/

namespace InstallManifestBuilder

/-- What a file is added with: path, content key and size. -/
abbrev FileArgs := Text × Key 16 × UInt32

def entry (args : FileArgs) : Option InstallFileEntry :=
  some (InstallFileEntry.new args.1 args.2.1 args.2.2)

def step (builder : InstallManifestBuilder) : TaggingOp FileArgs → InstallManifestBuilder
  | .addTag name tagType => builder.addTag name tagType
  | .addFile (path, contentKey, fileSize) => builder.addFile path contentKey fileSize
  | .associate fileIndex tagName => keep builder (builder.associateFileWithTag fileIndex tagName)
  | .disassociate fileIndex tagName => keep builder (builder.removeFileFromTag fileIndex tagName)
  | .removeFile fileIndex => keep builder (builder.removeFile fileIndex)
  | .removeTag tagName => keep builder (builder.removeTag tagName)

def run (builder : InstallManifestBuilder) (ops : List (TaggingOp FileArgs)) :
    InstallManifestBuilder := ops.foldl step builder

def Follows (builder : InstallManifestBuilder) (t : Tagging InstallFileEntry) : Prop :=
  Tracks t builder.tags builder.entries builder.tagNameToIndex

variable {builder : InstallManifestBuilder} {t : Tagging InstallFileEntry}

theorem Follows.updateTag {t' : Tagging InstallFileEntry} (h : builder.Follows t) {fileIndex : Nat}
    {tagName : Text} {change : InstallTag → InstallTag}
    (hNone : t.pair? fileIndex tagName = none → t' = t)
    (hSome : ∀ k, fileIndex < builder.entries.length → builder.tagNameToIndex tagName = some k →
      Tracks t' (builder.tags.modify k change) builder.entries builder.tagNameToIndex) :
    (keep builder (builder.updateTag fileIndex tagName change)).Follows t' := by
  unfold InstallManifestBuilder.updateTag
  split_ifs with hIndex
  · rw [hNone (h.pair?_eq_none (Or.inl hIndex))]
    exact h
  · split
    next hName =>
      rw [hNone (h.pair?_eq_none (Or.inr hName))]
      exact h
    next tagIndex hName =>
      exact hSome tagIndex (Nat.lt_of_not_le hIndex) hName

theorem length_removedMask (mask : Bytes) (fileIndex totalBits : Nat) :
    (removedMask mask fileIndex totalBits).length = divCeil totalBits 8 := by
  rw [removedMask, length_map, length_range]

variable (h : builder.Follows t)
include h

theorem Follows.removeFile (fileIndex : Nat) :
    (keep builder (builder.removeFile fileIndex)).Follows
      (t.files[fileIndex]?.elim t fun file => t.removeFile fileIndex file.1) := by
  unfold InstallManifestBuilder.removeFile
  split_ifs with hIndex
  · rw [h.files_eq_none hIndex]
    exact h
  · have hLt := Nat.lt_of_not_le hIndex
    refine Tracks.removeFile h hLt (fun mask => length_removedMask mask fileIndex _)
      fun mask _ hPadding i => ?_
    rw [test_removedMask, length_eraseIdx_of_lt hLt]
    by_cases hi : i < builder.entries.length - 1
    · rw [decide_eq_true hi, Bool.true_and]
    · -- a bit beyond the remaining files comes from the padding
      rw [decide_eq_false hi, Bool.false_and, hPadding]
      rw [InstallTag.oldIndex, if_neg (by omega)]
      omega

theorem Follows.removeTag (tagName : Text) :
    (keep builder (builder.removeTag tagName)).Follows (t.removeTag tagName) := by
  unfold InstallManifestBuilder.removeTag
  split
  next hNone =>
    rw [h.removeTag_of_none hNone]
    exact h
  next tagIndex hSome =>
    exact Tracks.removeTag h hSome (h.indexed.removeName hSome)

theorem Follows.step {op : TaggingOp FileArgs} (hFresh : t.Fresh op) :
    (builder.step op).Follows (t.step entry op) := by
  cases op with
  | addTag name tagType => exact Tracks.addTag h hFresh tagType
  | addFile args => exact Tracks.addFile h (InstallFileEntry.new args.1 args.2.1 args.2.2)
  | associate fileIndex tagName =>
    exact h.updateTag (fun hNone => congrArg (·.elim t t.associate) hNone)
      fun _ hIndex hName => Tracks.associate h hIndex hName
  | disassociate fileIndex tagName =>
    exact h.updateTag (fun hNone => congrArg (·.elim t t.disassociate) hNone)
      fun _ hIndex hName => Tracks.disassociate h hIndex hName
  | removeFile fileIndex => exact h.removeFile fileIndex
  | removeTag tagName => exact h.removeTag tagName

theorem Follows.run {ops : List (TaggingOp FileArgs)}
    (hFresh : t.FreshNames entry ops) : (builder.run ops).Follows (t.run entry ops) := by
  induction ops generalizing builder t with
  | nil => exact h
  | cons op ops ih => exact ih (h.step hFresh.1) hFresh.2

end InstallManifestBuilder

/-! ## Download manifests -/

namespace DownloadManifestBuilder

/-- What a file is added with: encoding key, size and priority. -/
abbrev FileArgs := Key 16 × UInt64 × Int8

/-- A size of more than 40 bits makes no entry. -/
def entry (flagSize : UInt8) (args : FileArgs) : Option DownloadFileEntry :=
  (FileSize40.new args.2.1).toOption.map fun size => newEntry flagSize args.1 size args.2.2

def step (builder : DownloadManifestBuilder) : TaggingOp FileArgs → DownloadManifestBuilder
  | .addTag name tagType => builder.addTag name tagType
  | .addFile (encodingKey, fileSize, priority) =>
    keep builder (builder.addFile encodingKey fileSize priority)
  | .associate fileIndex tagName => keep builder (builder.associateFileWithTag fileIndex tagName)
  | .disassociate fileIndex tagName =>
    keep builder (builder.disassociateFileFromTag fileIndex tagName)
  | .removeFile fileIndex => (builder.removeFile fileIndex).2
  | .removeTag tagName => (builder.removeTag tagName).2

def run (builder : DownloadManifestBuilder) (ops : List (TaggingOp FileArgs)) :
    DownloadManifestBuilder := ops.foldl step builder

/-- A builder with any options, before the first call. -/
structure IsFresh (builder : DownloadManifestBuilder) : Prop where
  entries : builder.entries = []
  tags : builder.tags = []
  tagNameToIndex : builder.tagNameToIndex = fun _ => none

/-- The builder follows `t`, and its flag size is the one it started with. -/
structure Follows (flagSize : UInt8) (builder : DownloadManifestBuilder)
    (t : Tagging DownloadFileEntry) : Prop where
  flagSize : builder.flagSize = flagSize
  tracks : Tracks t builder.tags builder.entries builder.tagNameToIndex

variable {flagSize : UInt8}

variable {builder : DownloadManifestBuilder} {t : Tagging DownloadFileEntry}

theorem Follows.addFile (h : Follows flagSize builder t) (args : FileArgs) :
    Follows flagSize (keep builder (builder.addFile args.1 args.2.1 args.2.2))
      ((entry flagSize args).elim t t.addFile) := by
  unfold DownloadManifestBuilder.addFile entry
  cases FileSize40.new args.2.1 with
  | error e => exact h
  | ok size =>
    rw [← h.flagSize]
    exact ⟨rfl, h.tracks.addFile _⟩

theorem Follows.updateTag {t' : Tagging DownloadFileEntry} (h : Follows flagSize builder t)
    {fileIndex : Nat} {tagName : Text} {change : InstallTag → InstallTag}
    (hNone : t.pair? fileIndex tagName = none → t' = t)
    (hSome : ∀ k, fileIndex < builder.entries.length → builder.tagNameToIndex tagName = some k →
      Tracks t' (builder.tags.modify k change) builder.entries builder.tagNameToIndex) :
    Follows flagSize (keep builder (builder.updateTag fileIndex tagName change)) t' := by
  unfold DownloadManifestBuilder.updateTag
  split_ifs with hIndex
  · rw [hNone (h.tracks.pair?_eq_none (Or.inl hIndex))]
    exact h
  · split
    next hName =>
      rw [hNone (h.tracks.pair?_eq_none (Or.inr hName))]
      exact h
    next tagIndex hName =>
      exact ⟨h.flagSize, hSome tagIndex (Nat.lt_of_not_le hIndex) hName⟩

theorem length_removedMask (mask : Bytes) (fileIndex remaining : Nat) :
    (removedMask mask fileIndex remaining).length = divCeil remaining 8 := resize_length _ _

variable (h : Follows flagSize builder t)
include h

theorem Follows.removeFile (fileIndex : Nat) :
    Follows flagSize (builder.removeFile fileIndex).2
      (t.files[fileIndex]?.elim t fun file => t.removeFile fileIndex file.1) := by
  unfold DownloadManifestBuilder.removeFile
  split_ifs with hIndex
  · rw [h.tracks.files_eq_none hIndex]
    exact h
  · have hLt := Nat.lt_of_not_le hIndex
    refine ⟨h.flagSize, h.tracks.removeFile hLt (fun mask => length_removedMask mask fileIndex _)
      fun mask hLength hPadding => ?_⟩
    have hCount : (builder.entries.eraseIdx fileIndex).length + 1 = builder.entries.length := by
      rw [length_eraseIdx_of_lt hLt]
      omega
    rw [← hCount] at hLength hPadding
    exact test_removedMask hLength (by omega) hPadding

theorem Follows.removeTag (tagName : Text) :
    Follows flagSize (builder.removeTag tagName).2 (t.removeTag tagName) := by
  unfold DownloadManifestBuilder.removeTag
  split
  next hNone =>
    rw [h.tracks.removeTag_of_none hNone]
    exact h
  next index hSome =>
    refine ⟨h.flagSize, h.tracks.removeTag hSome ?_⟩
    have hNames := h.tracks.denotes.names
    have hNodup := h.tracks.wellFormed.names
    rw [← hNames, eraseIdx_map]
    rw [← hNames] at hNodup
    apply indexed_indexByName
    rw [← eraseIdx_map]
    exact hNodup.sublist (eraseIdx_sublist _ _)

theorem Follows.step {op : TaggingOp FileArgs}
    (hFresh : t.Fresh op) : Follows flagSize (builder.step op) (t.step (entry flagSize) op) := by
  cases op with
  | addTag name tagType => exact ⟨h.flagSize, h.tracks.addTag hFresh tagType⟩
  | addFile args => exact h.addFile args
  | associate fileIndex tagName =>
    exact h.updateTag (fun hNone => congrArg (·.elim t t.associate) hNone)
      fun _ hIndex hName => h.tracks.associate hIndex hName
  | disassociate fileIndex tagName =>
    exact h.updateTag (fun hNone => congrArg (·.elim t t.disassociate) hNone)
      fun _ hIndex hName => h.tracks.disassociate hIndex hName
  | removeFile fileIndex => exact h.removeFile fileIndex
  | removeTag tagName => exact h.removeTag tagName

theorem Follows.run {ops : List (TaggingOp FileArgs)} (hFresh : t.FreshNames (entry flagSize) ops) :
    Follows flagSize (builder.run ops) (t.run (entry flagSize) ops) := by
  induction ops generalizing builder t with
  | nil => exact h
  | cons op ops ih => exact ih (h.step hFresh.1) hFresh.2

omit h

theorem IsFresh.follows (h : builder.IsFresh) : Follows builder.flagSize builder Tagging.empty := by
  refine ⟨rfl, ?_⟩
  rw [h.tags, h.entries, h.tagNameToIndex]
  exact tracks_empty

theorem of_build {manifest : DownloadManifest} (h : builder.build = .ok manifest) :
    manifest.tags = builder.tags ∧ manifest.entries = builder.entries := by
  obtain ⟨_, -, h⟩ := bind_eq_ok.mp h
  obtain ⟨header, -, h⟩ := bind_eq_ok.mp h
  obtain ⟨_, -, h⟩ := bind_eq_ok.mp h
  cases h
  exact ⟨rfl, rfl⟩

end DownloadManifestBuilder

/-! ## Built manifests -/

/-- The masks of a manifest denote the relation, and every bit beyond the files is zero. -/
def Shows {φ : Type} (t : Tagging φ) (tags : List InstallTag) (entries : List φ) : Prop :=
  Denotes t tags entries ∧ ∀ tag ∈ tags, ∀ i, entries.length ≤ i → tag.hasFile i = false

theorem Tracks.shows {φ : Type} {t : Tagging φ} {tags : List InstallTag} {entries : List φ}
    {index : Text → Option Nat} (h : Tracks t tags entries index) : Shows t tags entries :=
  ⟨h.denotes, fun _ hTag _ hi => h.denotes.hasFile_of_le hTag hi⟩

/-- After every sequence of calls that adds tags under new names, on a new builder of install
manifests and on one of download manifests with any options, the manifest that is built shows the
relation of the same calls. -/
theorem built_masks_show :
    (∀ ops, Tagging.empty.FreshNames InstallManifestBuilder.entry ops → ∀ manifest,
      (InstallManifestBuilder.new.run ops).build = .ok manifest →
        Shows (Tagging.empty.run InstallManifestBuilder.entry ops) manifest.tags
          manifest.entries) ∧
    ∀ builder : DownloadManifestBuilder, builder.IsFresh → ∀ ops,
      Tagging.empty.FreshNames (DownloadManifestBuilder.entry builder.flagSize) ops → ∀ manifest,
        (builder.run ops).build = .ok manifest →
          Shows (Tagging.empty.run (DownloadManifestBuilder.entry builder.flagSize) ops)
            manifest.tags manifest.entries := by
  constructor
  · intro ops hFresh manifest hBuild
    obtain ⟨-, hTags, hEntries, -⟩ := InstallManifestBuilder.of_build hBuild
    have hFollows : InstallManifestBuilder.new.Follows Tagging.empty := tracks_empty
    rw [hTags, hEntries]
    exact (hFollows.run hFresh).shows
  · intro builder hNew ops hFresh manifest hBuild
    obtain ⟨hTags, hEntries⟩ := DownloadManifestBuilder.of_build hBuild
    rw [hTags, hEntries]
    exact (hNew.follows.run hFresh).tracks.shows

/-- Nine files under one tag, of which the first is removed. -/
def sampleOps {α : Type} (file : α) : List (TaggingOp α) :=
  [.addTag InstallTag.sampleName .locale] ++ List.replicate 9 (.addFile file) ++
    [.associate 8 InstallTag.sampleName, .removeFile 0]

theorem freshNames_sampleOps {α φ : Type} (entry : α → Option φ) (file : α) :
    Tagging.empty.FreshNames entry (sampleOps file) :=
  Tagging.freshNames_of_nodup entry (nodup_singleton _) nofun

def sampleInstall : InstallManifest where
  header := .new 1 8
  tags := [⟨InstallTag.sampleName, .locale, [0x01]⟩]
  entries := List.replicate 8
    (.new InstallManifestBuilder.samplePath InstallManifestBuilder.sampleKey 7)

def sampleDownload : DownloadManifest where
  header := .newV1 8 1 false
  entries := List.replicate 8
    (DownloadManifestBuilder.newEntry 0 InstallManifestBuilder.sampleKey
      DownloadManifest.sampleEntry.fileSize 0)
  tags := [⟨InstallTag.sampleName, .locale, [0x01]⟩]

def freshDownload : DownloadManifestBuilder := ⟨1, [], [], false, 0, 0, fun _ => none⟩

theorem built_masks_show_sample :
    Shows (Tagging.empty.run InstallManifestBuilder.entry
        (sampleOps (InstallManifestBuilder.samplePath, InstallManifestBuilder.sampleKey, 7)))
      sampleInstall.tags sampleInstall.entries ∧
    Shows (Tagging.empty.run (DownloadManifestBuilder.entry 0)
        (sampleOps (InstallManifestBuilder.sampleKey, 7, 0)))
      sampleDownload.tags sampleDownload.entries :=
  ⟨built_masks_show.1 _ (freshNames_sampleOps _ _) sampleInstall rfl,
    built_masks_show.2 freshDownload ⟨rfl, rfl, rfl⟩ _ (freshNames_sampleOps _ _) sampleDownload
      rfl⟩

/-! ## Files added to a manifest -/

open InstallManifestBuilder (samplePath sampleKey sampleManifest)

/-- The files below `count` are under the same tags. -/
def Kept (count : Nat) (tags tags' : List InstallTag) : Prop :=
  List.Forall₂ (fun tag tag' => tag'.name = tag.name ∧ tag'.tagType = tag.tagType ∧
    ∀ i < count, tag'.hasFile i = tag.hasFile i) tags tags'

/-- The file `i` is under no tag. -/
def Untagged (i : Nat) (tags : List InstallTag) : Prop := ∀ tag ∈ tags, tag.hasFile i = false

theorem kept_grow (tags : List InstallTag) (count n : Nat) :
    Kept count tags (tags.map (·.grow n)) ∧
      (Untagged count (tags.map (·.grow n)) ↔ Untagged count tags) := by
  constructor
  · rw [Kept, forall₂_map_right_iff, forall₂_same]
    exact fun tag _ => ⟨(tag.grow_same n).1, (tag.grow_same n).2, fun i _ => tag.hasFile_grow n i⟩
  · rw [Untagged, forall_mem_map]
    exact forall₂_congr fun tag _ => by rw [tag.hasFile_grow]

/-- A file that is added to any manifest leaves the old files under their tags. It is under none
itself exactly if the bit after the last file is not set in any mask. -/
theorem added_untagged_iff (key : Key 16) :
    (∀ (manifest : InstallManifest) (path : Text) (size : UInt32),
      let added := (InstallManifestBuilder.fromManifest manifest).addFile path key size
      Kept manifest.entries.length manifest.tags added.tags ∧
        (Untagged manifest.entries.length added.tags ↔
          Untagged manifest.entries.length manifest.tags)) ∧
    ∀ (manifest : DownloadManifest) (fileSize : UInt64) (priority : Int8)
      (added : DownloadManifestBuilder),
      (DownloadManifestBuilder.fromManifest manifest).addFile key fileSize priority = .ok added →
        Kept manifest.entries.length manifest.tags added.tags ∧
          (Untagged manifest.entries.length added.tags ↔
            Untagged manifest.entries.length manifest.tags) := by
  constructor
  · intro manifest path size
    exact kept_grow manifest.tags _ _
  · intro manifest fileSize priority added h
    obtain ⟨_, -, h⟩ := bind_eq_ok.mp h
    cases h
    exact kept_grow manifest.tags _ _

theorem added_untagged_sample : ∃ added,
    (DownloadManifestBuilder.fromManifest sampleDownload).addFile sampleKey 7 0 = .ok added ∧
      Kept sampleDownload.entries.length sampleDownload.tags added.tags ∧
      Untagged sampleDownload.entries.length added.tags := by
  obtain ⟨hKept, hUntagged⟩ := (added_untagged_iff sampleKey).2 sampleDownload 7 0 _ rfl
  refine ⟨_, rfl, hKept, hUntagged.mpr ?_⟩
  unfold Untagged
  decide

/-- A manifest of two files, with a bit set after them. -/
def padded : InstallManifest :=
  { sampleManifest with tags := [⟨InstallTag.sampleName, .locale, [0x20]⟩] }

theorem added_untagged_refuted : InstallManifest.parse padded.build = .ok padded ∧
    ((InstallManifestBuilder.fromManifest padded).addFile samplePath sampleKey
      7).tags.map (·.hasFile 2) = [true] :=
  ⟨rfl, by decide⟩

end Cascette.Manifest
