import Cascette.Lib.Checked
import Cascette.Lib.Utf8

/-!
# The disk cache

Every value is a file of its own, under the string of its key. An index in memory says which keys
are stored and when they expire; it is lost when the cache is closed. A key that is not in the index
is looked up on the disk by `get`, which then puts it into the index without an expiry, but neither
by `contains` nor by `remove`. A value is first written into a file whose name has the extension
`tmp` in place of the one of the key, and that file is renamed.

The file system is a map from paths to contents; what it does not take as the name of a file is a
parameter (`Setting.storable`). Sizes, counters and access times, which only statistics and the
background cleanup read, are left out.
-/

namespace Cascette.Cache

open Lib Function

inductive CacheError
  | invalidConfiguration (message : String)
  | backend
  | io
  | lockTimeout (message : String)
deriving DecidableEq

/-! ## Paths -/

/-- The string of a key, which has no path separator. -/
abbrev KeyString := {text : Text // 0x2f ∉ text.1}

structure FilePath where
  dirs : List UInt8
  name : Bytes
deriving DecidableEq

/-- A name that stands for a directory: the empty one, one dot and two dots. -/
def namesDirectory (name : Bytes) : Bool := name = [] ∨ name = [46] ∨ name = [46, 46]

def afterDot (name : Bytes) : Bytes := (name.reverse.takeWhile (· ≠ 46)).reverse

/-- A dot at the beginning does not begin an extension. -/
def fileStem (name : Bytes) : Bytes :=
  let before := name.take (name.length - (afterDot name).length - 1)
  if 46 ∈ name ∧ before ≠ [] then before else name

/-- `path.with_extension("tmp")` -/
def FilePath.withTmp (path : FilePath) : FilePath :=
  { path with name := fileStem path.name ++ [46, 116, 109, 112] }

structure DiskCacheConfig where
  useSubdirectories : Bool
  subdirectoryLevels : ℕ

/-- What a cache is opened with, and what the file system takes as the name of a file. -/
structure Setting (K : Type) where
  config : DiskCacheConfig
  asCacheKey : K → KeyString
  storable : Bytes → Bool

def pathHash (key : Bytes) : UInt64 := key.foldl (fun acc byte => acc * 31 + byte.toUInt64) 0

namespace Setting

variable {K : Type} (setting : Setting K)

/-- The directories are named after bytes of a hash. From the ninth level on the shift wraps around;
a build with overflow checks panics there. -/
def getFilePath (key : K) : FilePath where
  dirs :=
    if setting.config.useSubdirectories then
      (List.range setting.config.subdirectoryLevels).map fun level =>
        (pathHash (setting.asCacheKey key).1.1 >>> UInt64.ofNat (level * 8)).toUInt8
    else []
  name := (setting.asCacheKey key).1.1

end Setting

/-! ## Entries -/

/-- The first time that a clock cannot show, in nanoseconds. -/
def endOfTime : ℕ := 2 ^ 63 * 10 ^ 9

structure DiskCacheEntry where
  filePath : FilePath
  expiresAt : Option ℕ
deriving DecidableEq

def DiskCacheEntry.isExpired (entry : DiskCacheEntry) (now : ℕ) : Bool :=
  entry.expiresAt.any (· ≤ now)

/-- The cache and the files in its directory. The lock of the index is poisoned once a call panics
while it holds it. -/
structure DiskCache (K : Type) where
  index : K → Option DiskCacheEntry
  poisoned : Bool
  files : FilePath → Option Bytes

namespace DiskCache

variable {K : Type} [DecidableEq K] (setting : Setting K)

/-- A cache over a directory, whose files are not read. -/
def new (files : FilePath → Option Bytes) : DiskCache K where
  index := fun _ => none
  poisoned := false
  files

def removeFile (cache : DiskCache K) (path : FilePath) : DiskCache K :=
  { cache with files := update cache.files path none }

/-- Whether the temporary file can be written. -/
def opens (path : FilePath) : Bool :=
  !namesDirectory path.name && setting.storable path.withTmp.name

/-- If the name of the key is not taken, the temporary file stays. -/
def writeFile (cache : DiskCache K) (path : FilePath) (data : Bytes) :
    Except CacheError Unit × DiskCache K :=
  if opens setting path then
    let written := { cache with files := update cache.files path.withTmp (some data) }
    if setting.storable path.name then
      let moved := written.removeFile path.withTmp
      (.ok (), { moved with files := update moved.files path (some data) })
    else (.error .io, written)
  else (.error .io, cache)

def get (cache : DiskCache K) (now : ℕ) (key : K) :
    Except CacheError (Option Bytes) × DiskCache K :=
  if cache.poisoned then (.error (.lockTimeout "index read lock"), cache)
  else
    match cache.index key with
    | some entry =>
      let forgotten := { cache with index := update cache.index key none }
      if entry.isExpired now then (.ok none, forgotten.removeFile entry.filePath)
      else
        match cache.files entry.filePath with
        | some data => (.ok (some data), cache)
        | none => (.error .io, forgotten)
    | none =>
      let filePath := setting.getFilePath key
      match cache.files filePath with
      | some data =>
        -- the time to live cannot be read off the file
        (.ok (some data), { cache with
          index := update cache.index key (some { filePath, expiresAt := none }) })
      | none => (.ok none, cache)

def putWithTtl (cache : DiskCache K) (now : ℕ) (key : K) (value : Bytes) (ttl : ℕ) :
    Except (Halt CacheError) Unit × DiskCache K :=
  let filePath := setting.getFilePath key
  match cache.writeFile setting filePath value with
  | (.error e, cache) => (.error (.error e), cache)
  | (.ok (), cache) =>
    if cache.poisoned then (.error (.error (.lockTimeout "index write lock")), cache)
    else if now + ttl < endOfTime then
      let entered := { cache with
        index := update cache.index key
          (some { filePath, expiresAt := some (now + ttl) }) }
      match cache.index key with
      | some old =>
        if old.filePath ≠ filePath then (.ok (), entered.removeFile old.filePath)
        else (.ok (), entered)
      | none => (.ok (), entered)
    else (.error (.panic .overflow), { cache with poisoned := true })

def contains (cache : DiskCache K) (now : ℕ) (key : K) : Except CacheError Bool :=
  if cache.poisoned then .error (.lockTimeout "index read lock")
  else
    match cache.index key with
    | some entry =>
      if entry.isExpired now then .ok false else .ok (cache.files entry.filePath).isSome
    | none => .ok false

def remove (cache : DiskCache K) (key : K) : Except CacheError Bool × DiskCache K :=
  if cache.poisoned then (.error (.lockTimeout "index write lock"), cache)
  else
    match cache.index key with
    | some entry =>
      (.ok true, { cache with index := update cache.index key none }.removeFile entry.filePath)
    | none => (.ok false, cache)

/-- The whole directory is emptied, whatever is in the index. -/
def clear (cache : DiskCache K) : Except CacheError Unit × DiskCache K :=
  if cache.poisoned then (.error (.lockTimeout "index write lock"), cache)
  else (.ok (), { cache with index := fun _ => none, files := fun _ => none })

/-! ## Answers of a cache -/

variable {setting} {cache : DiskCache K} {now : ℕ} {key : K}

/-- The key is in the index, and its time is over. -/
def Expired (cache : DiskCache K) (now : ℕ) (key : K) : Prop :=
  ∃ entry, cache.index key = some entry ∧ entry.isExpired now = true

/-- The entries of the index have the paths of their keys. -/
def Placed (setting : Setting K) (cache : DiskCache K) : Prop :=
  ∀ key entry, cache.index key = some entry → entry.filePath = setting.getFilePath key

omit [DecidableEq K] in
theorem expired_iff {entry : DiskCacheEntry} (h : cache.index key = some entry) :
    cache.Expired now key ↔ entry.isExpired now = true := by
  constructor
  · rintro ⟨entry', hEntry, hExpired⟩
    cases h.symm.trans hEntry
    exact hExpired
  · exact fun hExpired => ⟨entry, h, hExpired⟩

omit [DecidableEq K] in
theorem not_expired_of_none (h : cache.index key = none) : ¬ cache.Expired now key := by
  rintro ⟨entry, hEntry, -⟩
  cases h.symm.trans hEntry

/-- All that decides an answer: the lock, whether the entry is expired, and the file of the key. -/
theorem get_eq_ok_iff (hPlaced : cache.Placed setting) {answer : Option Bytes} :
    (cache.get setting now key).1 = .ok answer ↔
      cache.poisoned = false ∧
        (cache.Expired now key ∧ answer = none ∨
          ¬ cache.Expired now key ∧ cache.files (setting.getFilePath key) = answer ∧
            (answer = none → cache.index key = none)) := by
  rw [get]
  by_cases hPoisoned : cache.poisoned = true
  · simp [hPoisoned]
  · rw [if_neg hPoisoned]
    have hWorks : cache.poisoned = false := Bool.eq_false_of_not_eq_true hPoisoned
    rw [and_iff_right hWorks]
    cases hIndex : cache.index key with
    | none =>
      have hNot : ¬ cache.Expired now key := not_expired_of_none hIndex
      dsimp only
      cases hFile : cache.files (setting.getFilePath key) <;> simp [hNot, eq_comm]
    | some entry =>
      dsimp only
      rw [hPlaced key entry hIndex]
      by_cases hExpired : entry.isExpired now = true
      · rw [if_pos hExpired]
        simp [(expired_iff hIndex).mpr hExpired, eq_comm]
      · have hNot : ¬ cache.Expired now key := mt (expired_iff hIndex).mp hExpired
        rw [if_neg hExpired]
        cases cache.files (setting.getFilePath key) <;> cases answer <;> simp [hNot]

/-! ## What a call leaves -/

section Get

variable (hWorks : cache.poisoned = false)

include hWorks

theorem get_snd_cases (hPlaced : cache.Placed setting)
    (hEntry : ¬ cache.Expired now key → cache.files (setting.getFilePath key) = none →
      cache.index key = none) :
    cache.Expired now key ∧
        (cache.get setting now key).2 = { cache with
          index := update cache.index key none
          files := update cache.files (setting.getFilePath key) none } ∨
      ¬ cache.Expired now key ∧
        ((cache.get setting now key).2 = cache ∨
          cache.files (setting.getFilePath key) ≠ none ∧
            (cache.get setting now key).2 = { cache with
              index := update cache.index key
                (some { filePath := setting.getFilePath key, expiresAt := none }) }) := by
  rw [get, if_neg (hWorks ▸ Bool.false_ne_true)]
  cases hIndex : cache.index key with
  | none =>
    refine .inr ⟨not_expired_of_none hIndex, ?_⟩
    dsimp only
    cases cache.files (setting.getFilePath key) with
    | none => exact .inl rfl
    | some data => exact .inr ⟨nofun, rfl⟩
  | some entry =>
    dsimp only
    rw [expired_iff hIndex, hPlaced key entry hIndex]
    by_cases hExpired : entry.isExpired now = true
    · rw [if_pos hExpired]
      exact .inl ⟨hExpired, rfl⟩
    · rw [if_neg hExpired]
      refine .inr ⟨hExpired, ?_⟩
      cases hFile : cache.files (setting.getFilePath key) with
      | none => cases hIndex.symm.trans (hEntry (mt (expired_iff hIndex).mp hExpired) hFile)
      | some data => exact .inl rfl

theorem remove_of_some (hPlaced : cache.Placed setting) (hIndex : cache.index key ≠ none) :
    cache.remove key = (.ok true, { cache with
      index := update cache.index key none
      files := update cache.files (setting.getFilePath key) none }) := by
  obtain ⟨entry, hEntry⟩ := Option.ne_none_iff_exists'.mp hIndex
  rw [remove, if_neg (hWorks ▸ Bool.false_ne_true), hEntry]
  dsimp only
  rw [hPlaced key entry hEntry, removeFile]

end Get

/-- `get` leaves the entry of the key, forgets it, or enters the key without an expiry. -/
theorem get_snd_index (setting : Setting K) (cache : DiskCache K) (now : ℕ) (key : K) :
    ∃ entry, (cache.get setting now key).2.index = update cache.index key entry ∧
      (entry = cache.index key ∨ entry = none ∨
        entry = some { filePath := setting.getFilePath key, expiresAt := none }) := by
  have hSame : cache.index = update cache.index key (cache.index key) := (update_eq_self ..).symm
  rw [get]
  split
  · exact ⟨_, hSame, .inl rfl⟩
  · split
    · dsimp only
      split
      · exact ⟨none, rfl, .inr (.inl rfl)⟩
      · split
        · exact ⟨_, hSame, .inl rfl⟩
        · exact ⟨none, rfl, .inr (.inl rfl)⟩
    · dsimp only
      split
      · exact ⟨_, rfl, .inr (.inr rfl)⟩
      · exact ⟨_, hSame, .inl rfl⟩

/-- The files after a value was written. -/
def written (files : FilePath → Option Bytes) (path : FilePath) (value : Bytes) :
    FilePath → Option Bytes :=
  update (update files path.withTmp none) path (some value)

omit [DecidableEq K] in
theorem writeFile_eq (setting : Setting K) (cache : DiskCache K) (path : FilePath)
    (value : Bytes) : cache.writeFile setting path value =
      if opens setting path then
        if setting.storable path.name then
          (.ok (), { cache with files := written cache.files path value })
        else (.error .io, { cache with files := update cache.files path.withTmp (some value) })
      else (.error .io, cache) := by
  simp [writeFile, removeFile, written]

/-- A time that the clock cannot show poisons the lock. -/
theorem putWithTtl_of_storable (hPlaced : cache.Placed setting) (hWorks : cache.poisoned = false)
    (hOpens : opens setting (setting.getFilePath key) = true)
    (hStorable : setting.storable (setting.getFilePath key).name = true) (value : Bytes)
    (ttl : ℕ) : cache.putWithTtl setting now key value ttl =
      if now + ttl < endOfTime then
        (.ok (), { cache with
          index := update cache.index key
            (some { filePath := setting.getFilePath key, expiresAt := some (now + ttl) })
          files := written cache.files (setting.getFilePath key) value })
      else (.error (.panic .overflow), { cache with
        poisoned := true
        files := written cache.files (setting.getFilePath key) value }) := by
  rw [putWithTtl, writeFile_eq, if_pos hOpens, if_pos hStorable]
  dsimp only
  rw [hWorks, if_neg Bool.false_ne_true]
  cases hOld : cache.index key with
  | none => rfl
  | some old =>
    dsimp only
    rw [if_neg (not_not_intro (hPlaced key old hOld))]

/-- A call enters the key if it succeeds, and leaves the index as it is otherwise. -/
theorem putWithTtl_cases (setting : Setting K) (cache : DiskCache K) (now : ℕ) (key : K)
    (value : Bytes) (ttl : ℕ) :
    (∃ cache', cache.putWithTtl setting now key value ttl = (.ok (), cache') ∧
        cache'.index = update cache.index key
          (some { filePath := setting.getFilePath key, expiresAt := some (now + ttl) })) ∨
      ∃ e cache', cache.putWithTtl setting now key value ttl = (.error e, cache') ∧
        cache'.index = cache.index := by
  have hIndex : (cache.writeFile setting (setting.getFilePath key) value).2.index =
      cache.index := by
    rw [writeFile_eq]
    split
    · split <;> rfl
    · rfl
  rw [putWithTtl]
  split
  · next e cache' hWrite =>
    rw [hWrite] at hIndex
    exact .inr ⟨_, _, rfl, hIndex⟩
  · next cache' hWrite =>
    rw [hWrite] at hIndex
    rw [← hIndex]
    split
    · exact .inr ⟨_, _, rfl, rfl⟩
    · split
      · split
        · split <;> exact .inl ⟨_, rfl, rfl⟩
        · exact .inl ⟨_, rfl, rfl⟩
      · exact .inr ⟨_, _, rfl, rfl⟩

end DiskCache

end Cascette.Cache
