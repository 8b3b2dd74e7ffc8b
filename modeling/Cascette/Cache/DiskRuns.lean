import Cascette.Cache.Disk
import Cascette.Lib.Reach

/-!
# The disk cache against a ledger

A ledger keeps what was last put for each key and when it expires, until the key is removed or the
cache is cleared; reopening does not change it. `get` answers as the ledger says throughout a run
exactly if every call is safe in the sense of `DiskRun.Safe`: no file of a live key is overwritten,
an expired entry is looked up before the cache is closed, and after reopening a key is looked up
before it is removed and is put again before its time is over. `contains` agrees with `get` in
addition exactly if nothing is live where the cache is reopened (`DiskRun.served_iff`).
-/

namespace Cascette.Cache

open Lib DiskCache Function List Option Bool

variable {K : Type} [DecidableEq K]

/-! ## Runs -/

inductive DiskCall (K : Type)
  | putWithTtl (key : K) (value : Bytes) (ttl : ℕ)
  | get (key : K)
  | contains (key : K)
  | remove (key : K)
  | clear
  | reopen
  | wait (duration : ℕ)

/-- A cache at a time, with the last value of each key and the time when it expires. -/
structure DiskRun (K : Type) where
  now : ℕ
  cache : DiskCache K
  ledger : K → Option (Bytes × ℕ)

namespace DiskRun

variable (setting : Setting K)

/-- The directory is empty in the beginning. -/
def start (now : ℕ) : DiskRun K where
  now
  cache := .new fun _ => none
  ledger := fun _ => none

def putWithTtl (run : DiskRun K) (key : K) (value : Bytes) (ttl : ℕ) : DiskRun K :=
  match run.cache.putWithTtl setting run.now key value ttl with
  | (.ok (), cache) =>
    { run with cache, ledger := update run.ledger key (some (value, run.now + ttl)) }
  | (.error _, cache) => { run with cache }

def remove (run : DiskRun K) (key : K) : DiskRun K :=
  match run.cache.remove key with
  | (.ok _, cache) => { run with cache, ledger := update run.ledger key none }
  | (.error _, cache) => { run with cache }

def clear (run : DiskRun K) : DiskRun K :=
  match run.cache.clear with
  | (.ok (), cache) => { run with cache, ledger := fun _ => none }
  | (.error _, cache) => { run with cache }

def perform (run : DiskRun K) : DiskCall K → DiskRun K
  | .putWithTtl key value ttl => run.putWithTtl setting key value ttl
  | .get key => { run with cache := (run.cache.get setting run.now key).2 }
  | .contains _ => run
  | .remove key => run.remove key
  | .clear => run.clear
  | .reopen => { run with cache := .new run.cache.files }
  | .wait duration => { run with now := run.now + duration }

def performAll (now : ℕ) (calls : List (DiskCall K)) : DiskRun K :=
  calls.foldl (perform setting) (start now)

/-- The value that was last put for a key, if it has not since been removed, cleared or expired. -/
def live (run : DiskRun K) (key : K) : Option Bytes :=
  ((run.ledger key).filter fun row => run.now < row.2).map Prod.fst

/-- `get` answers what is live. -/
def GetServed (run : DiskRun K) : Prop :=
  ∀ key, (run.cache.get setting run.now key).1 = .ok (run.live key)

/-- `contains` says for which keys `get` has an answer. -/
def ContainsAgrees (run : DiskRun K) : Prop :=
  ∀ key, run.cache.contains run.now key = (run.cache.get setting run.now key).1.map Option.isSome

/-- The file at a path can be replaced by `value` without harm to a key: it is not the file of the
key, or it is one that is not looked at any more, or it has that content already. -/
def Bears (run : DiskRun K) (path : FilePath) (value : Bytes) (key : K) : Prop :=
  setting.getFilePath key = path → run.cache.Expired run.now key ∨ run.live key = some value

/-- No other key with the same path is live. -/
def Alone (run : DiskRun K) (key : K) : Prop :=
  ∀ key', key' ≠ key → setting.getFilePath key' = setting.getFilePath key → run.live key' = none

/-- A value is written. Its time must be one that the clock can show; the keys whose file is
written, and those whose file the temporary one takes the place of, must not be harmed. -/
def SafeWrite (run : DiskRun K) (key : K) (value : Bytes) (ttl : ℕ) : Prop :=
  let path := setting.getFilePath key
  run.now + ttl < endOfTime ∧
    (∀ key', key' ≠ key → run.Bears setting path value key') ∧
    (path.withTmp ≠ path → ∀ key', setting.getFilePath key' = path.withTmp → run.live key' = none)

/-- What a call asks of the state in which it is made. -/
def Safe (run : DiskRun K) : DiskCall K → Prop
  | .putWithTtl key value ttl =>
    let path := setting.getFilePath key
    DiskCache.opens setting path = true →
      if setting.storable path.name then run.SafeWrite setting key value ttl
      else ∀ key', run.Bears setting path.withTmp value key'
  | .get key => run.cache.Expired run.now key → run.Alone setting key
  | .contains _ => True
  | .remove key => if run.cache.index key = none then run.live key = none else run.Alone setting key
  | .clear => True
  | .reopen =>
    ∀ key, run.cache.Expired run.now key → run.cache.files (setting.getFilePath key) = none
  | .wait duration =>
    ∀ key value deadline, run.ledger key = some (value, deadline) → run.now < deadline →
      deadline ≤ run.now + duration →
        ∃ entry, run.cache.index key = some entry ∧ entry.expiresAt ≠ none

/-! ## What is known throughout a run -/

variable {setting} {run : DiskRun K}

/-- The entries of the index have the paths of their keys, and they expire when the ledger says. The
lock is poisoned only by a call that has a key. -/
structure Inv (setting : Setting K) (run : DiskRun K) : Prop where
  placed : run.cache.Placed setting
  used : run.cache.poisoned = true → Nonempty K
  timed : ∀ key entry deadline, run.cache.index key = some entry →
    entry.expiresAt = some deadline → ∃ value, run.ledger key = some (value, deadline)

/-- An answer, in terms of the entry and the file of the key. -/
def Shown (setting : Setting K) (run : DiskRun K) (key : K) : Prop :=
  run.cache.Expired run.now key ∧ run.live key = none ∨
    ¬ run.cache.Expired run.now key ∧
      run.cache.files (setting.getFilePath key) = run.live key ∧
      (run.live key = none → run.cache.index key = none)

/-- Every key is shown, and the lock of the index works. -/
structure Served (setting : Setting K) (run : DiskRun K) : Prop where
  works : run.cache.poisoned = false
  shown : ∀ key, run.Shown setting key

theorem Inv.getServed_iff (h : run.Inv setting) : run.GetServed setting ↔ run.Served setting := by
  have hKey : ∀ key, (run.cache.get setting run.now key).1 = .ok (run.live key) ↔
      run.cache.poisoned = false ∧ run.Shown setting key :=
    fun _ => get_eq_ok_iff h.placed
  constructor
  · intro hServed
    refine ⟨?_, fun key => ((hKey key).mp (hServed key)).2⟩
    by_contra hPoisoned
    obtain ⟨key⟩ := h.used (eq_true_of_not_eq_false hPoisoned)
    exact hPoisoned ((hKey key).mp (hServed key)).1
  · exact fun hServed key => (hKey key).mpr ⟨hServed.works, hServed.shown key⟩

theorem remove_cases (hWorks : run.cache.poisoned = false) (key : K) :
    (run.remove key).now = run.now ∧
      (run.remove key).cache.index = update run.cache.index key none ∧
      (run.remove key).ledger = update run.ledger key none := by
  rw [remove, DiskCache.remove, if_neg (hWorks ▸ false_ne_true)]
  cases hIndex : run.cache.index key with
  | none =>
    have hSame : run.cache.index = update run.cache.index key none := by
      rw [← hIndex, update_eq_self]
    exact ⟨rfl, hSame, rfl⟩
  | some entry => exact ⟨rfl, rfl, rfl⟩

section Reading

variable {key : K}

omit [DecidableEq K]

theorem Shown.live_eq_none (h : run.Shown setting key)
    (hExpired : run.cache.Expired run.now key) : run.live key = none := by
  rcases h with ⟨-, hNone⟩ | ⟨hNot, -⟩
  · exact hNone
  · exact absurd hExpired hNot

variable {value : Bytes}

theorem live_eq_some_iff :
    run.live key = some value ↔
      ∃ deadline, run.ledger key = some (value, deadline) ∧ run.now < deadline := by
  rw [live]
  cases hLedger : run.ledger key with
  | none => simp
  | some row =>
    obtain ⟨value', deadline⟩ := row
    by_cases hNow : run.now < deadline <;> simp [Option.filter, hNow]

theorem live_eq_none_of_le {deadline : ℕ}
    (hLedger : run.ledger key = some (value, deadline)) (h : deadline ≤ run.now) :
    run.live key = none := by
  rw [live, hLedger]
  simp [Option.filter, h]

theorem live_eq_none_of_none (h : run.ledger key = none) : run.live key = none := by
  rw [live, h]
  rfl

/-- Nothing but the files has changed for a key. -/
structure SameEntry (run' run : DiskRun K) (key : K) : Prop where
  now : run'.now = run.now
  index : run'.cache.index key = run.cache.index key
  ledger : run'.ledger key = run.ledger key

variable {run' : DiskRun K} {key : K}

theorem SameEntry.expired_iff (h : SameEntry run' run key) :
    run'.cache.Expired run'.now key ↔ run.cache.Expired run.now key := by
  rw [DiskCache.Expired, DiskCache.Expired, h.now, h.index]

theorem SameEntry.live_eq (h : SameEntry run' run key) : run'.live key = run.live key := by
  rw [live, live, h.now, h.ledger]

section

variable (hShown : run.Shown setting key) (h : SameEntry run' run key)

include hShown h

theorem Shown.same (hFile : run'.cache.files (setting.getFilePath key) =
      run.cache.files (setting.getFilePath key)) : run'.Shown setting key := by
  rw [Shown, h.expired_iff, h.live_eq, h.index, hFile]
  exact hShown

theorem Shown.same_iff_of_some (hFile : run'.cache.files (setting.getFilePath key) = some value) :
    run'.Shown setting key ↔ run.cache.Expired run.now key ∨ run.live key = some value := by
  rw [Shown, h.expired_iff, h.live_eq, hFile]
  constructor
  · rintro (⟨hExpired, -⟩ | ⟨-, hLive, -⟩)
    · exact .inl hExpired
    · exact .inr hLive.symm
  · intro hBears
    by_cases hExpired : run.cache.Expired run.now key
    · exact .inl ⟨hExpired, hShown.live_eq_none hExpired⟩
    · have hLive := hBears.resolve_left hExpired
      exact .inr ⟨hExpired, hLive.symm, fun hNone => nomatch hLive.symm.trans hNone⟩

theorem Shown.same_iff_of_none (hFile : run'.cache.files (setting.getFilePath key) = none) :
    run'.Shown setting key ↔ run.live key = none := by
  rw [Shown, h.expired_iff, h.live_eq, h.index, hFile]
  constructor
  · rintro (⟨-, hLive⟩ | ⟨-, hLive, -⟩)
    · exact hLive
    · exact hLive.symm
  · intro hLive
    rcases hShown with ⟨hExpired, -⟩ | ⟨hNot, -, hIndex⟩
    · exact .inl ⟨hExpired, hLive⟩
    · exact .inr ⟨hNot, hLive.symm, fun _ => hIndex hLive⟩

end

theorem shown_of_none (hIndex : run.cache.index key = none)
    (hFile : run.cache.files (setting.getFilePath key) = none) (hLive : run.live key = none) :
    run.Shown setting key :=
  .inr ⟨not_expired_of_none hIndex, hFile.trans hLive.symm, fun _ => hIndex⟩

theorem Served.index_eq_none (h : run.Served setting) (hNot : ¬ run.cache.Expired run.now key)
    (hFile : run.cache.files (setting.getFilePath key) = none) : run.cache.index key = none := by
  obtain ⟨-, hLive, hNone⟩ := (h.shown key).resolve_left fun hIs => hNot hIs.1
  exact hNone (hLive.symm.trans hFile)

end Reading

section SameEntry

variable {run' : DiskRun K} {key : K}

theorem shown_drop_iff (hShown : ∀ key, run.Shown setting key)
    (hIndex : run'.cache.index = update run.cache.index key none)
    (hFiles : run'.cache.files = update run.cache.files (setting.getFilePath key) none)
    (hSame : ∀ key', key' ≠ key → SameEntry run' run key') (hLive : run'.live key = none) :
    (∀ key', run'.Shown setting key') ↔ run.Alone setting key := by
  constructor
  · intro h key' hKey hPath
    refine ((hShown key').same_iff_of_none (hSame key' hKey) ?_).mp (h key')
    rw [hFiles, hPath, update_self]
  · intro hAlone key'
    by_cases hKey : key' = key
    · subst hKey
      refine shown_of_none ?_ ?_ hLive
      · rw [hIndex, update_self]
      · rw [hFiles, update_self]
    · by_cases hPath : setting.getFilePath key' = setting.getFilePath key
      · refine ((hShown key').same_iff_of_none (hSame key' hKey) ?_).mpr (hAlone key' hKey hPath)
        rw [hFiles, hPath, update_self]
      · refine (hShown key').same (hSame key' hKey) ?_
        rw [hFiles, update_of_ne hPath]

end SameEntry

/-! ## One call -/

theorem served_get_iff (hInv : run.Inv setting) (h : run.Served setting) (key : K) :
    (run.perform setting (.get key)).Served setting ↔ run.Safe setting (.get key) := by
  rw [perform, Safe]
  obtain ⟨hExpired, hGet⟩ | ⟨hExpired, hGet | ⟨hSome, hGet⟩⟩ :=
    get_snd_cases h.works hInv.placed h.index_eq_none
  · rw [forall_prop_of_true hExpired, hGet]
    refine Iff.trans ⟨Served.shown, fun hShown => ⟨h.works, hShown⟩⟩
      (shown_drop_iff h.shown rfl rfl (fun key' hKey => ⟨rfl, ?_, rfl⟩) ?_)
    · exact update_of_ne hKey ..
    · exact (h.shown key).live_eq_none hExpired
  · rw [hGet]
    exact iff_of_true h fun hIs => absurd hIs hExpired
  · -- the key is entered without an expiry
    rw [hGet]
    refine iff_of_true ⟨h.works, fun key' => ?_⟩ fun hIs => absurd hIs hExpired
    by_cases hKey : key' = key
    · subst hKey
      obtain ⟨-, hLive, -⟩ := (h.shown key').resolve_left fun hIs => hExpired hIs.1
      refine .inr ⟨?_, hLive, fun hNone => absurd (hLive.trans hNone) hSome⟩
      rw [expired_iff (update_self ..)]
      exact false_ne_true
    · exact (h.shown key').same ⟨rfl, update_of_ne hKey .., rfl⟩ rfl

theorem served_remove_iff (hInv : run.Inv setting) (h : run.Served setting) (key : K) :
    (run.perform setting (.remove key)).Served setting ↔ run.Safe setting (.remove key) := by
  rw [perform, remove, Safe]
  by_cases hIndex : run.cache.index key = none
  · rw [if_pos hIndex, DiskCache.remove, if_neg (h.works ▸ false_ne_true), hIndex]
    have hNot : ¬ run.cache.Expired run.now key := not_expired_of_none hIndex
    obtain ⟨-, hLive, -⟩ := (h.shown key).resolve_left fun hIs => hNot hIs.1
    constructor
    · intro hAfter
      obtain ⟨-, hLive', -⟩ := (hAfter.shown key).resolve_left fun hIs => hNot hIs.1
      exact hLive.symm.trans (hLive'.trans (live_eq_none_of_none (update_self ..)))
    · intro hNone
      refine ⟨h.works, fun key' => ?_⟩
      by_cases hKey : key' = key
      · subst hKey
        exact shown_of_none hIndex (hLive.trans hNone) (live_eq_none_of_none (update_self ..))
      · exact (h.shown key').same ⟨rfl, rfl, update_of_ne hKey ..⟩ rfl
  · rw [if_neg hIndex, remove_of_some h.works hInv.placed hIndex]
    refine Iff.trans ⟨Served.shown, fun hShown => ⟨h.works, hShown⟩⟩
      (shown_drop_iff h.shown rfl rfl (fun key' hKey => ⟨rfl, ?_, ?_⟩) ?_)
    · exact update_of_ne hKey ..
    · exact update_of_ne hKey ..
    · exact live_eq_none_of_none (update_self ..)

theorem served_clear (h : run.Served setting) : (run.perform setting .clear).Served setting := by
  rw [perform, clear, DiskCache.clear, if_neg (h.works ▸ false_ne_true)]
  exact ⟨h.works, fun key => shown_of_none rfl rfl rfl⟩

theorem served_reopen_iff (h : run.Served setting) :
    (run.perform setting .reopen).Served setting ↔ run.Safe setting .reopen := by
  have hKey : ∀ key, (run.perform setting .reopen).Shown setting key ↔
      (run.cache.Expired run.now key → run.cache.files (setting.getFilePath key) = none) := by
    intro key
    have hNot : ¬ (run.perform setting .reopen).cache.Expired run.now key := not_expired_of_none rfl
    have hShown : (run.perform setting .reopen).Shown setting key ↔
        run.cache.files (setting.getFilePath key) = run.live key := by
      constructor
      · rintro (⟨hIs, -⟩ | ⟨-, hLive, -⟩)
        · exact absurd hIs hNot
        · exact hLive
      · exact fun hLive => .inr ⟨hNot, hLive, fun _ => rfl⟩
    rw [hShown]
    rcases h.shown key with ⟨hIs, hNone⟩ | ⟨hIs, hLive, -⟩
    · rw [forall_prop_of_true hIs, hNone]
    · exact iff_of_true hLive fun hExpired => absurd hExpired hIs
  exact ⟨fun hAfter key => (hKey key).mp (hAfter.shown key),
    fun hSafe => ⟨rfl, fun key => (hKey key).mpr (hSafe key)⟩⟩

variable {key : K}

theorem served_put_of_not_storable_iff (h : run.Served setting) (value : Bytes) (ttl : ℕ)
    (hOpens : DiskCache.opens setting (setting.getFilePath key) = true)
    (hStorable : ¬ setting.storable (setting.getFilePath key).name = true) :
    (run.putWithTtl setting key value ttl).Served setting ↔
      ∀ key', run.Bears setting (setting.getFilePath key).withTmp value key' := by
  rw [putWithTtl, DiskCache.putWithTtl, writeFile_eq, if_pos hOpens, if_neg hStorable]
  refine Iff.trans ⟨Served.shown, fun hShown => ⟨h.works, hShown⟩⟩ (forall_congr' fun key' => ?_)
  by_cases hPath : setting.getFilePath key' = (setting.getFilePath key).withTmp
  · rw [Bears, forall_prop_of_true hPath]
    refine (h.shown key').same_iff_of_some ?_ ?_
    · exact ⟨rfl, rfl, rfl⟩
    · dsimp only
      rw [hPath, update_self]
  · refine iff_of_true ((h.shown key').same ⟨rfl, rfl, rfl⟩ ?_) fun hIs => absurd hIs hPath
    exact update_of_ne hPath ..

/-- The run after a value was written and entered. -/
def stored (setting : Setting K) (run : DiskRun K) (key : K) (value : Bytes) (ttl : ℕ) :
    DiskRun K where
  now := run.now
  cache := { run.cache with
    index := update run.cache.index key
      (some { filePath := setting.getFilePath key, expiresAt := some (run.now + ttl) })
    files := DiskCache.written run.cache.files (setting.getFilePath key) value }
  ledger := update run.ledger key (some (value, run.now + ttl))

theorem sameEntry_stored {key' : K} (hKey : key' ≠ key) (value : Bytes) (ttl : ℕ) :
    SameEntry (run.stored setting key value ttl) run key' :=
  ⟨rfl, update_of_ne hKey .., update_of_ne hKey ..⟩

theorem shown_stored_self (run : DiskRun K) (key : K) (value : Bytes) (ttl : ℕ) :
    (run.stored setting key value ttl).Shown setting key := by
  set stored := run.stored setting key value ttl
  have hIndex : stored.cache.index key = some _ := update_self ..
  have hLedger : stored.ledger key = some (value, run.now + ttl) := update_self ..
  rw [Shown, expired_iff hIndex, DiskCacheEntry.isExpired, any_some, decide_eq_true_iff]
  by_cases hTtl : run.now + ttl ≤ run.now
  · exact .inl ⟨hTtl, live_eq_none_of_le hLedger hTtl⟩
  · have hLive : stored.live key = some value :=
      live_eq_some_iff.mpr ⟨_, hLedger, Nat.lt_of_not_le hTtl⟩
    refine .inr ⟨hTtl, ?_, fun hNone => (nomatch hLive.symm.trans hNone)⟩
    exact (update_self ..).trans hLive.symm

theorem shown_stored_iff (h : ∀ key, run.Shown setting key) (key : K) (value : Bytes) (ttl : ℕ) :
    (∀ key', (run.stored setting key value ttl).Shown setting key') ↔
      (∀ key', key' ≠ key → run.Bears setting (setting.getFilePath key) value key') ∧
        ((setting.getFilePath key).withTmp ≠ setting.getFilePath key →
          ∀ key', setting.getFilePath key' = (setting.getFilePath key).withTmp →
            run.live key' = none) := by
  have hOver : ∀ key', key' ≠ key → setting.getFilePath key' = setting.getFilePath key →
      ((run.stored setting key value ttl).Shown setting key' ↔
        run.cache.Expired run.now key' ∨ run.live key' = some value) := by
    intro key' hKey hPath
    refine (h key').same_iff_of_some (sameEntry_stored hKey value ttl) ?_
    rw [hPath]
    exact update_self ..
  have hTmp : (setting.getFilePath key).withTmp ≠ setting.getFilePath key → ∀ key',
      setting.getFilePath key' = (setting.getFilePath key).withTmp →
        ((run.stored setting key value ttl).Shown setting key' ↔ run.live key' = none) := by
    intro hOther key' hPath
    have hKey : key' ≠ key := fun hKey => hOther (hPath.symm.trans (congrArg _ hKey))
    refine (h key').same_iff_of_none (sameEntry_stored hKey value ttl) ?_
    rw [hPath]
    exact (update_of_ne hOther ..).trans (update_self ..)
  constructor
  · intro hShown
    exact ⟨fun key' hKey hPath => (hOver key' hKey hPath).mp (hShown key'),
      fun hOther key' hPath => (hTmp hOther key' hPath).mp (hShown key')⟩
  · rintro ⟨hBears, hNone⟩ key'
    by_cases hKey : key' = key
    · rw [hKey]
      exact run.shown_stored_self key value ttl
    · by_cases hPath : setting.getFilePath key' = setting.getFilePath key
      · exact (hOver key' hKey hPath).mpr (hBears key' hKey hPath)
      · by_cases hAt : setting.getFilePath key' = (setting.getFilePath key).withTmp
        · have hOther := hAt ▸ hPath
          exact (hTmp hOther key' hAt).mpr (hNone hOther key' hAt)
        · exact (h key').same (sameEntry_stored hKey value ttl)
            ((update_of_ne hPath ..).trans (update_of_ne hAt ..))

variable (hInv : run.Inv setting)
include hInv

theorem served_put_of_storable_iff (h : run.Served setting) (value : Bytes) (ttl : ℕ)
    (hOpens : DiskCache.opens setting (setting.getFilePath key) = true)
    (hStorable : setting.storable (setting.getFilePath key).name = true) :
    (run.putWithTtl setting key value ttl).Served setting ↔
      run.SafeWrite setting key value ttl := by
  rw [putWithTtl, SafeWrite]
  rw [putWithTtl_of_storable hInv.placed h.works hOpens hStorable]
  by_cases hFits : run.now + ttl < endOfTime
  · rw [if_pos hFits, and_iff_right hFits, ← shown_stored_iff h.shown key value ttl]
    exact ⟨Served.shown, fun hShown => ⟨h.works, hShown⟩⟩
  · rw [if_neg hFits]
    exact iff_of_false (fun hAfter => Bool.noConfusion hAfter.works) fun hSafe => hFits hSafe.1

theorem served_put_iff (h : run.Served setting) (key : K) (value : Bytes) (ttl : ℕ) :
    (run.perform setting (.putWithTtl key value ttl)).Served setting ↔
      run.Safe setting (.putWithTtl key value ttl) := by
  rw [perform, Safe]
  by_cases hOpens : DiskCache.opens setting (setting.getFilePath key) = true
  · rw [forall_prop_of_true hOpens]
    by_cases hStorable : setting.storable (setting.getFilePath key).name = true
    · rw [if_pos hStorable]
      exact served_put_of_storable_iff hInv h value ttl hOpens hStorable
    · rw [if_neg hStorable]
      exact served_put_of_not_storable_iff h value ttl hOpens hStorable
  · refine iff_of_true ?_ fun hIs => absurd hIs hOpens
    rw [putWithTtl, DiskCache.putWithTtl, writeFile_eq, if_neg hOpens]
    exact h

theorem shown_wait_of_expiry (h : run.Shown setting key)
    {entry : DiskCacheEntry} (hIndex : run.cache.index key = some entry)
    (hEntry : entry.expiresAt ≠ none) (duration : ℕ) :
    (run.perform setting (.wait duration)).Shown setting key := by
  obtain ⟨deadline, hDeadline⟩ := ne_none_iff_exists'.mp hEntry
  obtain ⟨value, hLedger⟩ := hInv.timed key entry deadline hIndex hDeadline
  have hExpired : ∀ now, run.cache.Expired now key ↔ deadline ≤ now := by
    intro now
    rw [expired_iff hIndex, DiskCacheEntry.isExpired, hDeadline]
    exact decide_eq_true_iff
  by_cases hOver : deadline ≤ run.now + duration
  · exact .inl ⟨(hExpired _).mpr hOver, live_eq_none_of_le hLedger hOver⟩
  · have hNow : run.now < deadline := by omega
    have hLive : run.live key = some value := live_eq_some_iff.mpr ⟨deadline, hLedger, hNow⟩
    have hLive' : (run.perform setting (.wait duration)).live key = some value :=
      live_eq_some_iff.mpr ⟨deadline, hLedger, Nat.lt_of_not_le hOver⟩
    obtain ⟨-, hFile, -⟩ := h.resolve_left fun hIs => (nomatch hLive.symm.trans hIs.2)
    refine .inr ⟨mt (hExpired _).mp hOver, ?_, fun hNone => (nomatch hLive'.symm.trans hNone)⟩
    rw [hLive', ← hLive]
    exact hFile

omit hInv

theorem shown_wait_iff_of_no_expiry (h : run.Shown setting key)
    (hEntry : ∀ entry, run.cache.index key = some entry → entry.expiresAt = none)
    (duration : ℕ) :
    (run.perform setting (.wait duration)).Shown setting key ↔
      ∀ value deadline, run.ledger key = some (value, deadline) → run.now < deadline →
        run.now + duration < deadline := by
  have hNever : ∀ now, ¬ run.cache.Expired now key := by
    rintro now ⟨entry, hIndex, hExpired⟩
    rw [DiskCacheEntry.isExpired, hEntry entry hIndex] at hExpired
    cases hExpired
  obtain ⟨-, hFile, hNone⟩ := h.resolve_left fun hIs => hNever _ hIs.1
  constructor
  · intro hAfter value deadline hLedger hNow
    by_contra hOver
    obtain ⟨-, hFile', -⟩ := hAfter.resolve_left fun hIs => hNever _ hIs.1
    have hLive : run.live key = some value := live_eq_some_iff.mpr ⟨deadline, hLedger, hNow⟩
    have hGone : (run.perform setting (.wait duration)).live key = none :=
      live_eq_none_of_le hLedger (Nat.le_of_not_lt hOver)
    cases (hLive.symm.trans hFile.symm).trans (hFile'.trans hGone)
  · intro hRemains
    have hLive : (run.perform setting (.wait duration)).live key = run.live key := by
      refine Option.ext fun value => ?_
      rw [live_eq_some_iff, live_eq_some_iff]
      refine exists_congr fun deadline => and_congr_right fun hLedger => ?_
      exact ⟨fun hLater => Nat.lt_of_le_of_lt (Nat.le_add_right _ _) hLater,
        hRemains value deadline hLedger⟩
    refine .inr ⟨hNever _, ?_, ?_⟩
    · rw [hLive]
      exact hFile
    · rw [hLive]
      exact hNone

variable (hInv : run.Inv setting)
include hInv

/-- After some time a key is shown unless it should have expired and has no expiry. -/
theorem shown_wait_iff (h : run.Shown setting key) (duration : ℕ) :
    (run.perform setting (.wait duration)).Shown setting key ↔
      ∀ value deadline, run.ledger key = some (value, deadline) → run.now < deadline →
        deadline ≤ run.now + duration →
          ∃ entry, run.cache.index key = some entry ∧ entry.expiresAt ≠ none := by
  by_cases hEntry : ∃ entry, run.cache.index key = some entry ∧ entry.expiresAt ≠ none
  · obtain ⟨entry, hIndex, hExpiry⟩ := hEntry
    exact iff_of_true (shown_wait_of_expiry hInv h hIndex hExpiry duration)
      fun _ _ _ _ _ => ⟨entry, hIndex, hExpiry⟩
  · rw [shown_wait_iff_of_no_expiry h (by simpa using hEntry)]
    refine forall₄_congr fun value deadline _ _ => ?_
    rw [← Nat.not_le]
    exact ⟨fun hNot hOver => absurd hOver hNot, fun hAll hOver => hEntry (hAll hOver)⟩

theorem served_wait_iff (h : run.Served setting) (duration : ℕ) :
    (run.perform setting (.wait duration)).Served setting ↔ run.Safe setting (.wait duration) := by
  have hKey := fun key => shown_wait_iff hInv (h.shown key) duration
  exact ⟨fun hAfter key => (hKey key).mp (hAfter.shown key),
    fun hSafe => ⟨h.works, fun key => (hKey key).mpr (hSafe key)⟩⟩

theorem served_perform_iff (h : run.Served setting) (call : DiskCall K) :
    (run.perform setting call).Served setting ↔ run.Safe setting call := by
  cases call with
  | putWithTtl key value ttl => exact served_put_iff hInv h key value ttl
  | get key => exact served_get_iff hInv h key
  | contains key => exact iff_of_true h trivial
  | remove key => exact served_remove_iff hInv h key
  | clear => exact iff_of_true (served_clear h) trivial
  | reopen => exact served_reopen_iff h
  | wait duration => exact served_wait_iff hInv h duration

omit hInv

/-! ## The index -/

variable {run' : DiskRun K} {entry : Option DiskCacheEntry}

theorem Inv.of_update (h : run.Inv setting)
    (hIndex : run'.cache.index = update run.cache.index key entry)
    (hLedger : ∀ key', key' ≠ key → run'.ledger key' = run.ledger key')
    (hEntry : ∀ entry', entry = some entry' → entry'.filePath = setting.getFilePath key ∧
      ∀ deadline, entry'.expiresAt = some deadline →
        ∃ value, run'.ledger key = some (value, deadline)) :
    run'.Inv setting := by
  refine ⟨fun key' entry' hAt => ?_, fun _ => ⟨key⟩, fun key' entry' deadline hAt hDeadline => ?_⟩
  all_goals
    rw [hIndex] at hAt
    by_cases hKey : key' = key
  · subst hKey
    rw [update_self] at hAt
    exact (hEntry entry' hAt).1
  · rw [update_of_ne hKey] at hAt
    exact h.placed key' entry' hAt
  · subst hKey
    rw [update_self] at hAt
    exact (hEntry entry' hAt).2 deadline hDeadline
  · rw [update_of_ne hKey] at hAt
    rw [hLedger key' hKey]
    exact h.timed key' entry' deadline hAt hDeadline

omit [DecidableEq K] in
theorem Inv.of_same (h : run.Inv setting) (hIndex : run'.cache.index = run.cache.index)
    (hLedger : run'.ledger = run.ledger) (hUsed : run'.cache.poisoned = true → Nonempty K) :
    run'.Inv setting := by
  refine ⟨fun key entry hAt => ?_, hUsed, fun key entry deadline hAt => ?_⟩
  · exact h.placed key entry (hIndex ▸ hAt)
  · rw [hLedger]
    exact h.timed key entry deadline (hIndex ▸ hAt)

omit [DecidableEq K] in
theorem Inv.of_none (hIndex : ∀ key, run'.cache.index key = none)
    (hUsed : run'.cache.poisoned = true → Nonempty K) : run'.Inv setting :=
  ⟨fun key _ hAt => (nomatch (hIndex key).symm.trans hAt), hUsed,
    fun key _ _ hAt => (nomatch (hIndex key).symm.trans hAt)⟩

theorem Inv.perform (h : run.Inv setting) (call : DiskCall K) :
    (run.perform setting call).Inv setting := by
  cases call with
  | putWithTtl key value ttl =>
    rw [DiskRun.perform, putWithTtl]
    obtain ⟨cache', hPut, hIndex⟩ | ⟨e, cache', hPut, hIndex⟩ :=
      run.cache.putWithTtl_cases setting run.now key value ttl
    · rw [hPut]
      refine h.of_update hIndex (fun key' hKey => update_of_ne hKey ..) ?_
      rintro entry ⟨rfl⟩
      refine ⟨rfl, fun deadline hDeadline => ⟨value, ?_⟩⟩
      cases hDeadline
      exact update_self ..
    · rw [hPut]
      exact h.of_same hIndex rfl fun _ => ⟨key⟩
  | get key =>
    obtain ⟨entry, hIndex, hEntry⟩ := run.cache.get_snd_index setting run.now key
    refine h.of_update hIndex (fun _ _ => rfl) fun entry' hAt => ?_
    rcases hEntry with rfl | rfl | rfl
    · exact ⟨h.placed key entry' hAt, fun deadline => h.timed key entry' deadline hAt⟩
    · cases hAt
    · cases hAt
      refine ⟨rfl, fun deadline hDeadline => ?_⟩
      cases hDeadline
  | contains key => exact h
  | remove key =>
    by_cases hPoisoned : run.cache.poisoned = true
    · rw [DiskRun.perform, remove, DiskCache.remove, if_pos hPoisoned]
      exact h
    · obtain ⟨-, hIndex, hLedger⟩ := remove_cases (eq_false_of_not_eq_true hPoisoned) key
      refine h.of_update hIndex (fun key' hKey => ?_) fun entry hEntry => ?_
      · exact (congrFun hLedger key').trans (update_of_ne hKey ..)
      · cases hEntry
  | clear =>
    rw [DiskRun.perform, clear, DiskCache.clear]
    by_cases hPoisoned : run.cache.poisoned = true
    · rw [if_pos hPoisoned]
      exact h
    · rw [if_neg hPoisoned]
      exact .of_none (fun _ => rfl) h.used
  | reopen =>
    refine .of_none (fun _ => rfl) fun hUsed => ?_
    cases hUsed
  | wait duration => exact h.of_same rfl rfl h.used

omit [DecidableEq K] in
theorem inv_start (setting : Setting K) (now : ℕ) : (start now).Inv setting :=
  .of_none (fun _ => rfl) nofun

omit [DecidableEq K] in
theorem served_start (setting : Setting K) (now : ℕ) : (start now).Served setting :=
  ⟨rfl, fun _ => shown_of_none rfl rfl rfl⟩

/-! ## Which keys the index knows -/

/-- Every live key is in the index. -/
def Indexed (run : DiskRun K) : Prop := ∀ key, run.cache.index key = none → run.live key = none

omit [DecidableEq K] in
theorem contains_eq_iff (hInv : run.Inv setting) (h : run.Served setting) (key : K) :
    run.cache.contains run.now key =
      .ok (run.live key).isSome ↔ (run.cache.index key = none → run.live key = none) := by
  rw [DiskCache.contains, if_neg (h.works ▸ false_ne_true)]
  cases hIndex : run.cache.index key with
  | none => cases run.live key <;> simp
  | some entry =>
    refine iff_of_true ?_ nofun
    dsimp only
    by_cases hExpired : entry.isExpired run.now = true
    · have hNone := (h.shown key).live_eq_none ((expired_iff hIndex).mpr hExpired)
      rw [if_pos hExpired, hNone]
      rfl
    · have hNot : ¬ run.cache.Expired run.now key := mt (expired_iff hIndex).mp hExpired
      obtain ⟨-, hLive, -⟩ := (h.shown key).resolve_left fun hIs => hNot hIs.1
      rw [if_neg hExpired, hInv.placed key entry hIndex, hLive]

variable (h : run.Indexed)
include h

theorem Indexed.of_update (hNow : run'.now = run.now)
    (hIndex : run'.cache.index = update run.cache.index key entry)
    (hLedger : ∀ key', key' ≠ key → run'.ledger key' = run.ledger key')
    (hEntry : entry = none → run'.live key = none) : run'.Indexed := by
  intro key' hNone
  rw [hIndex] at hNone
  by_cases hKey : key' = key
  · subst hKey
    rw [update_self] at hNone
    exact hEntry hNone
  · rw [update_of_ne hKey] at hNone
    rw [live, hNow, hLedger key' hKey]
    exact h key' hNone

theorem Indexed.get (hInv : run.Inv setting) (hServed : run.Served setting)
    (key : K) : (run.perform setting (.get key)).Indexed := by
  rw [perform]
  obtain ⟨hExpired, hGet⟩ | ⟨-, hGet | ⟨-, hGet⟩⟩ :=
    get_snd_cases hServed.works hInv.placed hServed.index_eq_none
  · rw [hGet]
    exact h.of_update rfl rfl (fun _ _ => rfl) fun _ => (hServed.shown key).live_eq_none hExpired
  · rw [hGet]
    exact h
  · rw [hGet]
    exact h.of_update rfl rfl (fun _ _ => rfl) nofun

theorem Indexed.remove (hServed : run.Served setting) (key : K) : (run.remove key).Indexed := by
  obtain ⟨hNow, hIndex, hLedger⟩ := remove_cases hServed.works key
  refine h.of_update hNow hIndex (fun key' hKey => ?_) fun _ => live_eq_none_of_none ?_
  · exact (congrFun hLedger key').trans (update_of_ne hKey ..)
  · exact (congrFun hLedger key).trans (update_self ..)

theorem indexed_perform_iff (hInv : run.Inv setting)
    (hServed : run.Served setting) (call : DiskCall K) :
    (run.perform setting call).Indexed ↔ (call = .reopen → ∀ key, run.live key = none) := by
  cases call with
  | putWithTtl key value ttl =>
    refine iff_of_true ?_ nofun
    rw [perform, putWithTtl]
    obtain ⟨cache', hPut, hIndex⟩ | ⟨e, cache', hPut, hIndex⟩ :=
      run.cache.putWithTtl_cases setting run.now key value ttl
    · rw [hPut]
      exact h.of_update rfl hIndex (fun key' hKey => update_of_ne hKey ..) nofun
    · rw [hPut]
      intro key' hNone
      exact h key' (hIndex ▸ hNone)
  | get key => exact iff_of_true (h.get hInv hServed key) nofun
  | contains key => exact iff_of_true h nofun
  | remove key => exact iff_of_true (h.remove hServed key) nofun
  | clear =>
    refine iff_of_true ?_ nofun
    rw [perform, clear, DiskCache.clear, if_neg (hServed.works ▸ false_ne_true)]
    exact fun _ _ => rfl
  | reopen =>
    constructor
    · exact fun hAfter _ key => hAfter key rfl
    · exact fun hNone key _ => hNone rfl key
  | wait duration =>
    refine iff_of_true (fun key hNone => ?_) nofun
    rw [eq_none_iff_forall_ne_some]
    intro value hLive
    obtain ⟨deadline, hLedger, hLater⟩ := live_eq_some_iff.mp hLive
    have hNow : run.now < deadline := Nat.lt_of_le_of_lt (Nat.le_add_right _ _) hLater
    cases (h key hNone).symm.trans (live_eq_some_iff.mpr ⟨deadline, hLedger, hNow⟩)

omit h

/-! ## All calls -/

variable (setting)

theorem inv_performAll (now : ℕ) (calls : List (DiskCall K)) :
    (performAll setting now calls).Inv setting := by
  induction calls using reverseRecOn with
  | nil => exact inv_start setting now
  | append_singleton calls call ih =>
    rw [performAll, foldl_append]
    exact ih.perform call

/-- `get` answers what is live, throughout a run, exactly if every call is safe where it is made;
and `contains` agrees with it in addition exactly if nothing is live where the cache is reopened. -/
theorem served_iff (now : ℕ) (calls : List (DiskCall K)) :
    ((∀ before after, calls = before ++ after → (performAll setting now before).GetServed setting) ↔
      ∀ before call after, calls = before ++ call :: after →
        (performAll setting now before).Safe setting call) ∧
    ((∀ before after, calls = before ++ after →
        (performAll setting now before).GetServed setting ∧
          (performAll setting now before).ContainsAgrees setting) ↔
      ∀ before call after, calls = before ++ call :: after →
        (performAll setting now before).Safe setting call ∧
          (call = .reopen → ∀ key, (performAll setting now before).live key = none)) := by
  have hGet {run : DiskRun K} (hInv : run.Inv setting) :
      run.GetServed setting ↔ run.Inv setting ∧ run.Served setting := by
    rw [hInv.getServed_iff, and_iff_right hInv]
  have hContains {run : DiskRun K} (hInv : run.Inv setting) :
      run.GetServed setting ∧ run.ContainsAgrees setting ↔
        (run.Inv setting ∧ run.Served setting) ∧ run.Indexed := by
    rw [hGet hInv]
    refine and_congr_right fun h => forall_congr' fun key => ?_
    rw [h.1.getServed_iff.mpr h.2 key]
    exact contains_eq_iff h.1 h.2 key
  have hInv := inv_performAll setting now
  constructor
  · simp only [hGet (hInv _)]
    refine always_iff (P := fun run : DiskRun K => run.Inv setting ∧ run.Served setting)
      (fun run call h => ?_) calls ⟨inv_start setting now, served_start setting now⟩
    rw [and_iff_right (h.1.perform call)]
    exact served_perform_iff h.1 h.2 call
  · simp only [hContains (hInv _)]
    have hStep : ∀ (run : DiskRun K) call, (run.Inv setting ∧ run.Served setting) ∧ run.Indexed →
        (((run.perform setting call).Inv setting ∧ (run.perform setting call).Served setting) ∧
            (run.perform setting call).Indexed ↔
          run.Safe setting call ∧ (call = .reopen → ∀ key, run.live key = none)) := by
      intro run call h
      rw [and_iff_right (h.1.1.perform call)]
      exact and_congr (served_perform_iff h.1.1 h.1.2 call)
        (indexed_perform_iff h.2 h.1.1 h.1.2 call)
    exact always_iff hStep calls ⟨⟨inv_start setting now, served_start setting now⟩, fun _ _ => rfl⟩

/-- A cache without subdirectories and two keys, `a.b` and `a.tmp`. -/
def twoKeys : Setting Bool where
  config := { useSubdirectories := false, subdirectoryLevels := 0 }
  asCacheKey := fun key =>
    if key then ⟨⟨[97, 46, 98], rfl⟩, by decide⟩ else ⟨⟨[97, 46, 116, 109, 112], rfl⟩, by decide⟩
  storable := fun _ => true

/-- After reopening, `contains` does not see a key that `get` answers; a removed key comes back and
an expired one too. And to put one key takes away the file of the other. -/
theorem served_refuted :
    let reopened : DiskRun Bool := performAll twoKeys 0 [.putWithTtl true [1] 5, .reopen]
    let removed : DiskRun Bool :=
      performAll twoKeys 0 [.putWithTtl true [1] 5, .reopen, .remove true]
    let expired : DiskRun Bool := performAll twoKeys 0 [.putWithTtl true [1] 5, .reopen, .wait 9]
    let collided : DiskRun Bool :=
      performAll twoKeys 0 [.putWithTtl false [2] 5, .putWithTtl true [1] 5]
    ((reopened.cache.get twoKeys reopened.now true).1 = .ok (some [1]) ∧
        reopened.cache.contains reopened.now true = .ok false) ∧
      ((removed.cache.get twoKeys removed.now true).1 = .ok (some [1]) ∧ removed.live true = none) ∧
      ((expired.cache.get twoKeys expired.now true).1 = .ok (some [1]) ∧ expired.live true = none) ∧
      (collided.cache.get twoKeys collided.now false).1 = .error .io ∧
        collided.live false = some [2] := by
  decide +kernel

end DiskRun

end Cascette.Cache
