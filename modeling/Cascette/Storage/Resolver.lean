import Cascette.Crypto.Jenkins
import Cascette.Encoding.File
import Cascette.Lib.Memo
import Cascette.Lib.Reach
import Cascette.Root.File

/-!
# Content resolution

A `ContentResolver` holds a root file and an encoding file and three tables in front of them. The
table of paths keeps what a search found; the table of ids is filled when a root file is loaded and
is the only place where ids are looked up; the table of content keys is filled when an encoding file
is loaded and asked before its pages are searched. No table is emptied when another file is loaded.
The answers are those of a search in the files last loaded exactly as long as every call is safe in
the sense of `ContentResolver.Safe` (`ContentResolver.transparent_iff`).
-/

namespace Cascette.Storage

open Lib Memo List
open Root (RootFile RootError RootBlock RootRecord)
open Encoding (EncodingFile EncodingError CKeyPageEntry)

/-! ## Searches in the files -/

def recordsOf (root : RootFile) : List RootRecord := root.blocks.flatMap RootBlock.records

/-- The records as rows of the table of ids. -/
def idRows (root : RootFile) : List (UInt32 × Key 16) :=
  (recordsOf root).map fun record => (record.fileDataId, record.contentKey)

/-- The first record with the hash of the path. -/
def findPath (root : RootFile) (path : Text) : Option (Key 16) :=
  ((recordsOf root).find? fun record =>
    record.nameHash = some (Crypto.jenkins96 path.1)).map RootRecord.contentKey

/-- The first record with the id. -/
def findFileDataId (root : RootFile) (fdid : UInt32) : Option (Key 16) :=
  Memo.firstRow (idRows root) fdid

def entriesOf (encoding : EncodingFile) : List CKeyPageEntry :=
  encoding.ckeyPages.flatMap Encoding.Page.entries

/-- The entries as rows of the table of content keys. An entry without encoding keys has no row. -/
def contentRows (encoding : EncodingFile) : List (Key 16 × Key 16) :=
  (entriesOf encoding).filterMap fun entry =>
    entry.encodingKeys.head?.map fun encodingKey => (entry.contentKey, encodingKey)

/-- The first encoding key of the first entry with the content key that has one. -/
def findContentKey (encoding : EncodingFile) (key : Key 16) : Option (Key 16) :=
  (entriesOf encoding).findSome? fun entry =>
    if entry.contentKey = key then entry.encodingKeys.head? else none

theorem findContentKey_eq_firstRow (encoding : EncodingFile) (key : Key 16) :
    findContentKey encoding key = Memo.firstRow (contentRows encoding) key := by
  rw [findContentKey, contentRows]
  induction entriesOf encoding with
  | nil => rfl
  | cons entry entries ih =>
    rw [findSome?_cons, filterMap_cons, ih]
    cases hHead : entry.encodingKeys.head? with
    | none => simp
    | some encodingKey =>
      rw [Option.map_some]
      rw [firstRow_cons]
      by_cases hKey : entry.contentKey = key
      · rw [if_pos hKey, if_pos hKey]
      · rw [if_neg hKey, if_neg hKey]

/-! ## The resolver -/

inductive LoadError
  | root (e : Halt RootError)
  | encoding (e : EncodingError)

structure FileInfo where
  path : Text
  contentKey : Key 16
  encodingKey : Key 16
  size : Nat
deriving DecidableEq

structure ContentResolver where
  rootFile : Option RootFile
  encodingFile : Option EncodingFile
  pathCache : Text → Option (Key 16)
  contentCache : Key 16 → Option (Key 16)
  fileDataIdMap : UInt32 → Option (Key 16)

namespace ContentResolver

def new : ContentResolver where
  rootFile := none
  encodingFile := none
  pathCache := fun _ => none
  contentCache := fun _ => none
  fileDataIdMap := fun _ => none

variable (md5 : Bytes → Key 16)

def loadRootFile (r : ContentResolver) (data : Bytes) : Except LoadError Unit × ContentResolver :=
  match RootFile.parse data with
  | .error e => (.error (.root e), r)
  | .ok root =>
    (.ok (), { r with
      fileDataIdMap := Memo.insertAll r.fileDataIdMap (idRows root)
      rootFile := some root })

def loadEncodingFile (r : ContentResolver) (data : Bytes) :
    Except LoadError Unit × ContentResolver :=
  match EncodingFile.parse md5 data with
  | .error e => (.error (.encoding e), r)
  | .ok encoding =>
    (.ok (), { r with
      contentCache := Memo.insertAll r.contentCache (contentRows encoding)
      encodingFile := some encoding })

def resolvePath (r : ContentResolver) (path : Text) : Option (Key 16) × ContentResolver :=
  match r.pathCache path with
  | some cached => (some cached, r)
  | none =>
    match r.rootFile.bind fun root => findPath root path with
    | some key => (some key, { r with pathCache := Function.update r.pathCache path (some key) })
    | none => (none, r)

def resolveFileDataId (r : ContentResolver) (fdid : UInt32) : Option (Key 16) :=
  r.fileDataIdMap fdid

def resolveContentKey (r : ContentResolver) (key : Key 16) : Option (Key 16) × ContentResolver :=
  match r.contentCache key with
  | some cached => (some cached, r)
  | none =>
    match r.encodingFile.bind fun encoding => findContentKey encoding key with
    | some encodingKey =>
      (some encodingKey,
        { r with contentCache := Function.update r.contentCache key (some encodingKey) })
    | none => (none, r)

def resolvePathToEncoding (r : ContentResolver) (path : Text) : Option (Key 16) × ContentResolver :=
  match r.resolvePath path with
  | (some contentKey, r) => r.resolveContentKey contentKey
  | (none, r) => (none, r)

def resolveFdidToEncoding (r : ContentResolver) (fdid : UInt32) :
    Option (Key 16) × ContentResolver :=
  match r.resolveFileDataId fdid with
  | some contentKey => r.resolveContentKey contentKey
  | none => (none, r)

/-- The size that the first entry with the content key gives. -/
def getContentSize (r : ContentResolver) (key : Key 16) : Option Nat :=
  r.encodingFile.bind fun encoding =>
    ((entriesOf encoding).find? fun entry => entry.contentKey = key).map CKeyPageEntry.fileSize

def getFileInfo (r : ContentResolver) (path : Text) : Option FileInfo × ContentResolver :=
  match r.resolvePath path with
  | (none, r) => (none, r)
  | (some contentKey, r) =>
    match r.resolveContentKey contentKey with
    | (none, r) => (none, r)
    | (some encodingKey, r) =>
      (some { path, contentKey, encodingKey, size := (r.getContentSize contentKey).getD 0 }, r)

def clearCaches (r : ContentResolver) : ContentResolver :=
  { r with
    pathCache := fun _ => none
    contentCache := fun _ => none
    fileDataIdMap := fun _ => none }

/-! ## Calls -/

inductive Call
  | loadRootFile (data : Bytes)
  | loadEncodingFile (data : Bytes)
  | clearCaches
  | resolvePath (path : Text)
  | resolveFileDataId (fdid : UInt32)
  | resolveContentKey (key : Key 16)
  | resolvePathToEncoding (path : Text)
  | resolveFdidToEncoding (fdid : UInt32)
  | getFileInfo (path : Text)

def perform (r : ContentResolver) : Call → ContentResolver
  | .loadRootFile data => (r.loadRootFile data).2
  | .loadEncodingFile data => (r.loadEncodingFile md5 data).2
  | .clearCaches => r.clearCaches
  | .resolvePath path => (r.resolvePath path).2
  | .resolveFileDataId _ => r
  | .resolveContentKey key => (r.resolveContentKey key).2
  | .resolvePathToEncoding path => (r.resolvePathToEncoding path).2
  | .resolveFdidToEncoding fdid => (r.resolveFdidToEncoding fdid).2
  | .getFileInfo path => (r.getFileInfo path).2

def performAll (calls : List Call) : ContentResolver := calls.foldl (perform md5) new

def Call.root : Call → Option RootFile
  | .loadRootFile data => (RootFile.parse data).toOption
  | _ => none

def Call.encoding : Call → Option EncodingFile
  | .loadEncodingFile data => (EncodingFile.parse md5 data).toOption
  | _ => none

def lastRoot (calls : List Call) : Option RootFile := (calls.filterMap Call.root).getLast?

def lastEncoding (calls : List Call) : Option EncodingFile :=
  (calls.filterMap (Call.encoding md5)).getLast?

/-- Every answer is that of a search in the two files. -/
structure Transparent (r : ContentResolver) (root : Option RootFile)
    (encoding : Option EncodingFile) : Prop where
  path : ∀ path, (r.resolvePath path).1 = root.bind fun root => findPath root path
  fileDataId : ∀ fdid, r.resolveFileDataId fdid = root.bind fun root => findFileDataId root fdid
  contentKey : ∀ key,
    (r.resolveContentKey key).1 = encoding.bind fun encoding => findContentKey encoding key

/-- What a call asks of the tables before it: that no table keeps an answer that the new file does
not give, that the rows of a key agree in the new file, and that no ids are lost with the tables. -/
def Safe (r : ContentResolver) : Call → Prop
  | .loadRootFile data =>
    ∀ root, RootFile.parse data = .ok root →
      Memo.Sound r.pathCache (findPath root) ∧
      (∀ fdid, Memo.lastRow (idRows root) fdid = Memo.firstRow (idRows root) fdid) ∧
      ∀ fdid, r.fileDataIdMap fdid ≠ none → Memo.firstRow (idRows root) fdid ≠ none
  | .loadEncodingFile data =>
    ∀ encoding, EncodingFile.parse md5 data = .ok encoding →
      (∀ key, Memo.lastRow (contentRows encoding) key = Memo.firstRow (contentRows encoding) key) ∧
      ∀ key, r.contentCache key ≠ none → Memo.firstRow (contentRows encoding) key ≠ none
  | .clearCaches => ∀ root, r.rootFile = some root → recordsOf root = []
  | _ => True

/-! ## What the answers rest on -/

variable {md5} {r : ContentResolver}

theorem resolvePath_fst (r : ContentResolver) (path : Text) :
    (r.resolvePath path).1 =
      (r.pathCache path).or (r.rootFile.bind fun root => findPath root path) := by
  rw [resolvePath]
  split
  · next cached hCached => rw [hCached, Option.some_or]
  · next hNone =>
    rw [hNone, Option.none_or]
    split
    · next key hKey => rw [hKey]
    · next hKey => rw [hKey]

theorem resolveContentKey_fst (r : ContentResolver) (key : Key 16) :
    (r.resolveContentKey key).1 = (r.contentCache key).or
      (r.encodingFile.bind fun encoding => findContentKey encoding key) := by
  rw [resolveContentKey]
  split
  · next cached hCached => rw [hCached, Option.some_or]
  · next hNone =>
    rw [hNone, Option.none_or]
    split
    · next encodingKey hKey => rw [hKey]
    · next hKey => rw [hKey]

/-- The tables against the files that the resolver holds. -/
structure Faithful (r : ContentResolver) : Prop where
  path : Memo.Sound r.pathCache fun path => r.rootFile.bind fun root => findPath root path
  fileDataId : ∀ fdid, r.fileDataIdMap fdid = r.rootFile.bind fun root => findFileDataId root fdid
  contentKey : Memo.Sound r.contentCache fun key =>
    r.encodingFile.bind fun encoding => findContentKey encoding key

theorem transparent_iff_faithful : r.Transparent r.rootFile r.encodingFile ↔ r.Faithful := by
  constructor
  · intro h
    refine ⟨or_eq_iff_sound.mp fun path => ?_, h.fileDataId, or_eq_iff_sound.mp fun key => ?_⟩
    · rw [← resolvePath_fst, h.path]
    · rw [← resolveContentKey_fst, h.contentKey]
  · intro h
    refine ⟨fun path => ?_, h.fileDataId, fun key => ?_⟩
    · rw [resolvePath_fst]
      exact or_eq_iff_sound.mpr h.path path
    · rw [resolveContentKey_fst]
      exact or_eq_iff_sound.mpr h.contentKey key

/-! ## One call -/

variable (h : r.Faithful)
include h

theorem Faithful.resolvePath (path : Text) : (r.resolvePath path).2.Faithful := by
  rw [ContentResolver.resolvePath]
  split
  · exact h
  · split
    · next key hKey => exact ⟨h.path.update hKey, h.fileDataId, h.contentKey⟩
    · exact h

theorem Faithful.resolveContentKey (key : Key 16) : (r.resolveContentKey key).2.Faithful := by
  rw [ContentResolver.resolveContentKey]
  split
  · exact h
  · split
    · next encodingKey hKey => exact ⟨h.path, h.fileDataId, h.contentKey.update hKey⟩
    · exact h

theorem Faithful.resolvePathToEncoding (path : Text) :
    (r.resolvePathToEncoding path).2.Faithful := by
  have hPath := h.resolvePath path
  rw [ContentResolver.resolvePathToEncoding]
  split
  · next contentKey r' hEq =>
    rw [hEq] at hPath
    exact hPath.resolveContentKey contentKey
  · next r' hEq =>
    rw [hEq] at hPath
    exact hPath

theorem Faithful.resolveFdidToEncoding (fdid : UInt32) :
    (r.resolveFdidToEncoding fdid).2.Faithful := by
  rw [ContentResolver.resolveFdidToEncoding]
  split
  · exact h.resolveContentKey _
  · exact h

theorem Faithful.getFileInfo (path : Text) : (r.getFileInfo path).2.Faithful := by
  have hPath := h.resolvePath path
  rw [ContentResolver.getFileInfo]
  split
  · next r' hEq =>
    rw [hEq] at hPath
    exact hPath
  · next contentKey r' hEq =>
    rw [hEq] at hPath
    have hContent := hPath.resolveContentKey contentKey
    split
    · next r'' hEq' =>
      rw [hEq'] at hContent
      exact hContent
    · next encodingKey r'' hEq' =>
      rw [hEq'] at hContent
      exact hContent

theorem faithful_loadRootFile_iff (data : Bytes) :
    (r.loadRootFile data).2.Faithful ↔ r.Safe md5 (.loadRootFile data) := by
  rw [loadRootFile]
  cases hParse : RootFile.parse data with
  | error e => exact ⟨fun _ root hRoot => (nomatch hParse.symm.trans hRoot), fun _ => h⟩
  | ok root =>
    constructor
    · intro hAfter root' hRoot
      cases hParse.symm.trans hRoot
      exact ⟨hAfter.path, insertAll_eq_firstRow_iff.mp hAfter.fileDataId⟩
    · intro hSafe
      obtain ⟨hPath, hIds⟩ := hSafe root hParse
      exact ⟨hPath, insertAll_eq_firstRow_iff.mpr hIds, h.contentKey⟩

theorem faithful_loadEncodingFile_iff (data : Bytes) :
    (r.loadEncodingFile md5 data).2.Faithful ↔ r.Safe md5 (.loadEncodingFile data) := by
  rw [loadEncodingFile]
  cases hParse : EncodingFile.parse md5 data with
  | error e => exact ⟨fun _ encoding hEncoding => (nomatch hParse.symm.trans hEncoding), fun _ => h⟩
  | ok encoding =>
    have hSearch : findContentKey encoding = Memo.firstRow (contentRows encoding) :=
      funext (findContentKey_eq_firstRow encoding)
    constructor
    · intro hAfter encoding' hEncoding
      cases hParse.symm.trans hEncoding
      have hSound : Memo.Sound _ (findContentKey encoding) := hAfter.contentKey
      rw [hSearch] at hSound
      exact insertAll_eq_firstRow_iff.mp (sound_insertAll_iff.mp hSound)
    · intro hSafe
      have hKeys := insertAll_eq_firstRow_iff.mpr (hSafe encoding hParse)
      have hSound := sound_insertAll_iff.mpr hKeys
      rw [← hSearch] at hSound
      exact ⟨h.path, h.fileDataId, hSound⟩

omit h

theorem findFileDataId_eq_none_iff (root : RootFile) :
    (∀ fdid, findFileDataId root fdid = none) ↔ recordsOf root = [] := by
  simp only [findFileDataId, firstRow_eq_none_iff, idRows, forall_mem_map]
  constructor
  · exact fun h => eq_nil_iff_forall_not_mem.mpr fun record hRecord =>
      h record.fileDataId record hRecord rfl
  · intro h
    rw [h]
    exact fun _ record hRecord => (not_mem_nil hRecord).elim

theorem faithful_clearCaches_iff : r.clearCaches.Faithful ↔ r.Safe md5 .clearCaches := by
  constructor
  · intro h root hRoot
    refine (findFileDataId_eq_none_iff root).mp fun fdid => ?_
    have hId := h.fileDataId fdid
    rw [clearCaches, hRoot] at hId
    exact hId.symm
  · intro hSafe
    refine ⟨nofun, fun fdid => ?_, nofun⟩
    rw [clearCaches]
    cases hRoot : r.rootFile with
    | none => rfl
    | some root => exact ((findFileDataId_eq_none_iff root).mpr (hSafe root hRoot) fdid).symm

theorem faithful_perform_iff (r : ContentResolver) (call : Call) (h : r.Faithful) :
    (r.perform md5 call).Faithful ↔ r.Safe md5 call := by
  cases call with
  | loadRootFile data => exact faithful_loadRootFile_iff h data
  | loadEncodingFile data => exact faithful_loadEncodingFile_iff h data
  | clearCaches => exact faithful_clearCaches_iff
  | resolvePath path => exact iff_of_true (h.resolvePath path) trivial
  | resolveFileDataId fdid => exact iff_of_true h trivial
  | resolveContentKey key => exact iff_of_true (h.resolveContentKey key) trivial
  | resolvePathToEncoding path => exact iff_of_true (h.resolvePathToEncoding path) trivial
  | resolveFdidToEncoding fdid => exact iff_of_true (h.resolveFdidToEncoding fdid) trivial
  | getFileInfo path => exact iff_of_true (h.getFileInfo path) trivial

/-! ## The files that the resolver holds -/

theorem resolvePath_files (r : ContentResolver) (path : Text) :
    (r.resolvePath path).2.rootFile = r.rootFile ∧
      (r.resolvePath path).2.encodingFile = r.encodingFile := by
  rw [resolvePath]
  split
  · exact ⟨rfl, rfl⟩
  · split <;> exact ⟨rfl, rfl⟩

theorem resolveContentKey_files (r : ContentResolver) (key : Key 16) :
    (r.resolveContentKey key).2.rootFile = r.rootFile ∧
      (r.resolveContentKey key).2.encodingFile = r.encodingFile := by
  rw [resolveContentKey]
  split
  · exact ⟨rfl, rfl⟩
  · split <;> exact ⟨rfl, rfl⟩

theorem resolvePathToEncoding_files (r : ContentResolver) (path : Text) :
    (r.resolvePathToEncoding path).2.rootFile = r.rootFile ∧
      (r.resolvePathToEncoding path).2.encodingFile = r.encodingFile := by
  have hPath := r.resolvePath_files path
  rw [resolvePathToEncoding]
  split
  · next contentKey r' hEq =>
    rw [hEq] at hPath
    rw [← hPath.1, ← hPath.2]
    exact r'.resolveContentKey_files contentKey
  · next r' hEq =>
    rw [hEq] at hPath
    exact hPath

theorem getFileInfo_snd (r : ContentResolver) (path : Text) :
    (r.getFileInfo path).2 = (r.resolvePathToEncoding path).2 := by
  rw [getFileInfo, resolvePathToEncoding]
  split
  · next r' hEq => rw [hEq]
  · next contentKey r' hEq =>
    rw [hEq]
    dsimp only
    split
    · next r'' hEq' => rw [hEq']
    · next encodingKey r'' hEq' => rw [hEq']

variable (md5)

theorem perform_files (r : ContentResolver) (call : Call) :
    (r.perform md5 call).rootFile = call.root.or r.rootFile ∧
      (r.perform md5 call).encodingFile = (call.encoding md5).or r.encodingFile := by
  cases call with
  | loadRootFile data =>
    rw [perform, loadRootFile, Call.root]
    cases RootFile.parse data <;> exact ⟨rfl, rfl⟩
  | loadEncodingFile data =>
    rw [perform, loadEncodingFile, Call.encoding]
    cases EncodingFile.parse md5 data <;> exact ⟨rfl, rfl⟩
  | clearCaches => exact ⟨rfl, rfl⟩
  | resolvePath path => exact r.resolvePath_files path
  | resolveFileDataId fdid => exact ⟨rfl, rfl⟩
  | resolveContentKey key => exact r.resolveContentKey_files key
  | resolvePathToEncoding path => exact r.resolvePathToEncoding_files path
  | resolveFdidToEncoding fdid =>
    rw [perform, resolveFdidToEncoding]
    split
    · exact r.resolveContentKey_files _
    · exact ⟨rfl, rfl⟩
  | getFileInfo path =>
    rw [perform, getFileInfo_snd]
    exact r.resolvePathToEncoding_files path

theorem getLast?_filterMap_concat {α β : Type} (f : α → Option β) (xs : List α) (x : α) :
    ((xs ++ [x]).filterMap f).getLast? = (f x).or (xs.filterMap f).getLast? := by
  rw [filterMap_append, getLast?_append, filterMap_cons, filterMap_nil]
  cases f x <;> rfl

theorem performAll_files (calls : List Call) :
    (performAll md5 calls).rootFile = lastRoot calls ∧
      (performAll md5 calls).encodingFile = lastEncoding md5 calls := by
  induction calls using reverseRecOn with
  | nil => exact ⟨rfl, rfl⟩
  | append_singleton calls call ih =>
    have hFiles := (performAll md5 calls).perform_files md5 call
    rw [ih.1, ih.2] at hFiles
    rw [performAll, foldl_append, lastRoot, lastEncoding, getLast?_filterMap_concat,
      getLast?_filterMap_concat]
    exact hFiles

/-! ## All calls -/

/-- The answers are those of a search in the files loaded last, throughout a sequence of calls,
exactly if every call is safe where it is made. -/
theorem transparent_iff (calls : List Call) :
    (∀ before after, calls = before ++ after →
        (performAll md5 before).Transparent (lastRoot before) (lastEncoding md5 before)) ↔
      ∀ before call after, calls = before ++ call :: after →
        (performAll md5 before).Safe md5 call := by
  have hFaithful : ∀ before, (performAll md5 before).Transparent (lastRoot before)
      (lastEncoding md5 before) ↔ (performAll md5 before).Faithful := by
    intro before
    obtain ⟨hRoot, hEncoding⟩ := performAll_files md5 before
    rw [← hRoot, ← hEncoding]
    exact transparent_iff_faithful
  simp only [hFaithful]
  exact always_iff faithful_perform_iff calls ⟨nofun, fun _ => rfl, nofun⟩

/-- A root file of the first version with one record, whose name is the empty path. -/
def oneRecord (key : UInt8) : Bytes :=
  [1, 0, 0, 0] ++ List.replicate 8 0 ++ [7, 0, 0, 0] ++ List.replicate 16 key ++
    [0xef, 0xbe, 0xad, 0xde, 0xef, 0xbe, 0xad, 0xde]

/-- A path resolved before another root file is loaded keeps its old content key, and an id of the
root file is not found after the tables were emptied. -/
theorem transparent_refuted :
    let md5 : Bytes → Key 16 := fun _ => ⟨List.replicate 16 0, rfl⟩
    let reloaded : List Call :=
      [.loadRootFile (oneRecord 1), .resolvePath ⟨[], rfl⟩, .loadRootFile (oneRecord 2)]
    let cleared : List Call := [.loadRootFile (oneRecord 1), .clearCaches]
    ((performAll md5 reloaded).resolvePath ⟨[], rfl⟩).1 = some ⟨replicate 16 1, rfl⟩ ∧
      (lastRoot reloaded).bind (findPath · ⟨[], rfl⟩) = some ⟨replicate 16 2, rfl⟩ ∧
      (performAll md5 cleared).resolveFileDataId 7 = none ∧
      (lastRoot cleared).bind (findFileDataId · 7) = some ⟨replicate 16 1, rfl⟩ := by
  decide +kernel

end ContentResolver

end Cascette.Storage
