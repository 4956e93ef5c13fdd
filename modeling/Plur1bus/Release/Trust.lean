import Mathlib.Order.Nat
import Mathlib.Order.Lattice
import Plur1bus.Release.Guard

/-!
The chain of trust. A key is `Vouched` for by the key lists accepted so far if it was in the
file at the start, or stands in a list that was signed by the key built in or by a key that
was vouched for by the lists before it and had not expired when the list was accepted. Every
key of the file is vouched for, whatever calls were made, so an accepted release is signed
by the key built in or by such a key. `Signed k t` says that the holder of `k` signed `t`.
-/

namespace Plur1bus.Release

open List

variable {M S V : Type} {out : Outside M S V} {Signed : String → M → Prop}

/-- The key has not expired. -/
def Unexpired (expires : String) (now : ℤ) : Prop := ∃ t, parseTime expires = some t ∧ now < t

inductive Vouched (out : Outside M S V) (Signed : String → M → Prop) (init : List RotatedKey)
    (channel : String) : List (Accepted M) → String → String → Prop
  | initial {past : List (Accepted M)} {k : RotatedKey} (hk : k ∈ init) (hchannel : k.channel = channel) :
      Vouched out Signed init channel past k.publicKey k.expires
  | byBaked {past rest : List (Accepted M)} {a : Accepted M} {k : ListedKey} {b : String}
      (hlist : out.keyList a.raw = some a.list) (hchannel : a.list.channel = channel)
      (hk : k ∈ a.list.keys) (hbaked : out.baked channel = some b) (hsigned : Signed b a.raw) :
      Vouched out Signed init channel (past ++ a :: rest) k.publicKey k.expires
  | byKey {past rest : List (Accepted M)} {a : Accepted M} {k : ListedKey} {key expires : String}
      (hlist : out.keyList a.raw = some a.list) (hchannel : a.list.channel = channel)
      (hk : k ∈ a.list.keys) (hkey : Vouched out Signed init channel past key expires)
      (hunexpired : Unexpired expires a.now) (hsigned : Signed key a.raw) :
      Vouched out Signed init channel (past ++ a :: rest) k.publicKey k.expires

section Vouched

variable {init : List RotatedKey} {channel : String} {past : List (Accepted M)} {key expires : String}

theorem Vouched.append (h : Vouched out Signed init channel past key expires) (more : List (Accepted M)) :
    Vouched out Signed init channel (past ++ more) key expires := by
  cases h with
  | initial hk hchannel => exact .initial hk hchannel
  | byBaked hlist hchannel hk hbaked hsigned =>
    rw [append_assoc, cons_append]
    exact .byBaked hlist hchannel hk hbaked hsigned
  | byKey hlist hchannel hk hkey hunexpired hsigned =>
    rw [append_assoc, cons_append]
    exact .byKey hlist hchannel hk hkey hunexpired hsigned

/-- `text` is signed by the key built in, or by a key that is vouched for and has not expired. -/
inductive SignedByTrusted (out : Outside M S V) (Signed : String → M → Prop) (init : List RotatedKey)
    (channel : String) (now : ℤ) (past : List (Accepted M)) (text : M) : Prop
  | baked (b : String) (hbaked : out.baked channel = some b) (hsigned : Signed b text)
  | key (key expires : String) (hkey : Vouched out Signed init channel past key expires)
      (hunexpired : Unexpired expires now) (hsigned : Signed key text)

theorem SignedByTrusted.append {now : ℤ} {text : M}
    (h : SignedByTrusted out Signed init channel now past text) (more : List (Accepted M)) :
    SignedByTrusted out Signed init channel now (past ++ more) text := by
  cases h with
  | baked b hbaked hsigned => exact .baked b hbaked hsigned
  | key key expires hkey hunexpired hsigned =>
    exact .key key expires (hkey.append more) hunexpired hsigned

/-- A list that a trusted key signed vouches for its keys. -/
theorem SignedByTrusted.vouches {a : Accepted M}
    (h : SignedByTrusted out Signed init channel a.now past a.raw)
    (hlist : out.keyList a.raw = some a.list) (hchannel : a.list.channel = channel) {k : ListedKey}
    (hk : k ∈ a.list.keys) : Vouched out Signed init channel (past ++ [a]) k.publicKey k.expires := by
  cases h with
  | baked b hbaked hsigned => exact .byBaked hlist hchannel hk hbaked hsigned
  | key key expires hkey hunexpired hsigned =>
    exact .byKey hlist hchannel hk hkey hunexpired hsigned

/-- Every key of the guard is vouched for. -/
def AllVouched (out : Outside M S V) (Signed : String → M → Prop) (init : List RotatedKey)
    (past : List (Accepted M)) (g : Guard) : Prop :=
  ∀ k ∈ g.keys, Vouched out Signed init k.channel past k.publicKey k.expires

/-- What is signed by a trusted key is so for a reason. -/
theorem signedByTrusted_of_trusts (hideal : ∀ text sig key, verifies out text sig key = true → Signed key text)
    {c : Ctx M} {g : Guard} {text : M} {sig : S} (hg : AllVouched out Signed init past g)
    (h : trusts out c g text sig = true) :
    SignedByTrusted out Signed init c.channel c.now past text := by
  obtain ⟨key, hkey, hverifies⟩ := List.any_eq_true.mp h
  have hsigned := hideal text sig key hverifies
  unfold trusted at hkey
  rw [mem_append, Option.mem_toList, mem_map] at hkey
  obtain hbaked | ⟨k, hk, rfl⟩ := hkey
  · exact .baked key hbaked hsigned
  · unfold live at hk
    rw [mem_filter, Bool.and_eq_true, decide_eq_true_eq, Option.any_eq_true] at hk
    obtain ⟨hmem, hchannel, t, ht, hnow⟩ := hk
    refine .key k.publicKey k.expires ?_ ⟨t, ht, of_decide_eq_true hnow⟩ hsigned
    rw [← hchannel]
    exact hg k hmem

end Vouched

/-! ### What the functions do -/

section Reading

variable {c : Ctx M} {raw : M} {sig : S} {g g' : Guard}

/-- The keys are those of `g` and keys of the list, for the channel; nothing else changes. -/
structure Extends (c : Ctx M) (g : Guard) (list : List ListedKey) (g' : Guard) : Prop where
  schemaVersion : g'.schemaVersion = g.schemaVersion
  highestSeen : g'.highestSeen = g.highestSeen
  keys : ∀ k ∈ g'.keys, k ∈ g.keys ∨ k.channel = c.channel ∧ ⟨k.publicKey, k.expires⟩ ∈ list

theorem scanKey_extends {list : List ListedKey} {s s' : Scan} {k : ListedKey} (hk : k ∈ list)
    (h : scanKey out c raw sig s k = .ok s') (hs : Extends c g list s.guard) :
    Extends c g list s'.guard := by
  unfold scanKey at h
  split at h
  · cases h
  split at h
  · cases h
  split at h
  · -- An expired key changes only what is said of the signer.
    cases h
    split <;> exact hs
  split at h
  · cases h
    exact hs
  · cases h
    refine ⟨hs.schemaVersion, hs.highestSeen, fun k' hk' => ?_⟩
    rw [mem_append, mem_singleton] at hk'
    obtain hk' | rfl := hk'
    · exact hs.keys k' hk'
    · exact .inr ⟨rfl, hk⟩

theorem foldlM_extends {list : List ListedKey} {s s' : Scan} (keys : List ListedKey)
    (hkeys : ∀ k ∈ keys, k ∈ list) (h : keys.foldlM (scanKey out c raw sig) s = .ok s')
    (hs : Extends c g list s.guard) : Extends c g list s'.guard := by
  induction keys generalizing s with
  | nil =>
    cases h
    exact hs
  | cons k keys ih =>
    rw [foldlM_cons] at h
    cases hk : scanKey out c raw sig s k with
    | error e =>
      rw [hk] at h
      cases h
    | ok s₁ =>
      rw [hk] at h
      refine ih (fun k' hk' => hkeys k' (mem_cons_of_mem k hk')) h ?_
      exact scanKey_extends (hkeys k mem_cons_self) hk hs

/-- A list that is read is signed by a trusted key, is of the channel, and one of the keys that
are then trusted signed the manifest. -/
theorem readList_spec {listRaw : M} {listSig : String}
    (h : readList out c raw sig g listRaw listSig = .ok g') :
    ∃ lsig list, trusts out c g listRaw lsig = true ∧ out.keyList listRaw = some list ∧
      list.channel = c.channel ∧ Extends c g list.keys g' ∧ trusts out c g' raw sig = true := by
  unfold readList at h
  split at h
  · cases h
  next lsig _ =>
  split at h
  · cases h
  next htrusts =>
  split at h
  · cases h
  next list hlist =>
  split at h
  · cases h
  next hof =>
  split at h
  · cases h
  next s hs =>
  split at h
  · cases h
  split at h
  next hmanifest =>
    cases h
    refine ⟨lsig, list, not_not.mp htrusts, hlist, ?_, ?_, hmanifest⟩
    · exact not_not.mp fun hne => hof (.inr hne)
    · exact foldlM_extends list.keys (fun _ => id) hs ⟨rfl, rfl, fun _ hk => .inl hk⟩
  · cases h

/-- A call that does not accept leaves the file as it is; one that does goes by a trusted key,
or by a key list, which is saved if it is to be. -/
inductive Verified (out : Outside M S V) (c : Ctx M) (raw : M) (file : File) :
    Except String Bool × File → Prop
  | refused {r : Except String Bool} (hr : r ≠ .ok true) : Verified out c raw file (r, file)
  | direct {g : Guard} {sig : S} (hload : file.load = .ok g)
      (hsig : c.fetchSig.toOption.bind out.decode = some sig)
      (htrusts : trusts out c g raw sig = true) : Verified out c raw file (.ok true, file)
  | listed {g g' : Guard} {sig : S} {listRaw : M} {listSig : String} {file' : File}
      (hload : file.load = .ok g) (hsig : c.fetchSig.toOption.bind out.decode = some sig)
      (htrusts : trusts out c g raw sig = false) (hkeys : c.fetchKeys = some (listRaw, listSig))
      (hread : readList out c raw sig g listRaw listSig = .ok g')
      (hfile : file' = file ∨ c.persist = true ∧ file' = .present g') :
      Verified out c raw file (.ok true, file')

theorem verified_verifyRelease (c : Ctx M) (raw : M) (file : File) :
    Verified out c raw file (verifyRelease out c raw file) := by
  unfold verifyRelease
  split
  · exact .refused (fun h => by cases h)
  next g hload =>
  split
  · exact .refused (fun h => by cases h)
  split
  · exact .refused (fun h => by cases h)
  split
  · exact .refused (fun h => by cases h)
  next text htext =>
  split
  · exact .refused (fun h => by cases h)
  next sig hdecode =>
  have hsig : c.fetchSig.toOption.bind out.decode = some sig := by
    rw [htext]
    exact hdecode
  split
  next htrusts => exact .direct hload hsig htrusts
  next htrusts =>
  rw [Bool.not_eq_true] at htrusts
  split
  · exact .refused (fun h => by cases h)
  split
  · exact .refused (fun h => by cases h)
  next listRaw listSig hkeys =>
  split
  · exact .refused (fun h => by cases h)
  next g' hread =>
  split
  · exact .listed hload hsig htrusts hkeys hread (.inl rfl)
  next hpersist =>
  split
  · refine .listed hload hsig htrusts hkeys hread (.inr ⟨?_, rfl⟩)
    cases hc : c.persist with
    | true => rfl
    | false =>
      rw [hc] at hpersist
      exact absurd rfl hpersist
  · exact .refused (fun h => by cases h)

end Reading

/-! ### Versions -/

section Versions

variable [LinearOrder V]

/-- `a` is below `b` in SemVer precedence. -/
def Below (out : Outside M S V) (a b : String) : Prop :=
  ∃ x y, out.version a = some x ∧ out.version b = some y ∧ x < y

theorem Below.trans {a b d : String} (h : Below out a b) (h' : Below out b d) : Below out a d := by
  obtain ⟨x, y, hx, hy, hxy⟩ := h
  obtain ⟨y', z, hy', hz, hyz⟩ := h'
  obtain rfl : y = y' := Option.some.inj (hy.symm.trans hy')
  exact ⟨x, z, hx, hz, hxy.trans hyz⟩

theorem precedence_of_below {a b : String} (h : Below out a b) : precedence out a b = some .lt := by
  obtain ⟨x, y, hx, hy, hxy⟩ := h
  unfold precedence
  rw [hx, hy]
  exact congrArg some (compare_lt_iff_lt.mpr hxy)

theorem below_of_compareVersions {a b : String} (h : compareVersions out a b = .ok .gt) : Below out b a := by
  unfold compareVersions precedence at h
  cases hx : out.version a with
  | none =>
    rw [hx] at h
    split at h
    next heq => cases heq
    next => split at h <;> cases h
  | some x =>
    cases hy : out.version b with
    | none =>
      rw [hx, hy] at h
      split at h
      next heq => cases heq
      next => split at h <;> cases h
    | some y =>
      rw [hx, hy] at h
      have hgt : compare x y = .gt := Except.ok.inj h
      exact ⟨y, x, hy, hx, compare_gt_iff_gt.mp hgt⟩

/-- A target below what is installed or below the highest version seen is refused. -/
theorem checkVersion_refuses {g : Guard} {channel installed target : String}
    (h : Below out target installed ∨ ∃ seen, g.highestSeen channel = some seen ∧ Below out target seen) :
    ∃ e, checkVersion out g channel installed target false = .error e := by
  have hlt : ∀ b, Below out target b → compareVersions out target b = .ok .lt := by
    intro b hb
    unfold compareVersions
    rw [precedence_of_below hb]
  unfold checkVersion
  cases hinstalled : compareVersions out target installed with
  | error e => exact ⟨e, rfl⟩
  | ok o =>
    obtain hbelow | ⟨seen, hseen, hbelow⟩ := h
    · rw [hlt installed hbelow] at hinstalled
      cases hinstalled
      exact ⟨_, rfl⟩
    · by_cases ho : o = .lt
      · rw [ho]
        exact ⟨_, rfl⟩
      · refine ⟨"release-replay", ?_⟩
        show (if o = .lt then _ else _ : Except String Unit) = _
        rw [if_neg ho, hseen]
        show (compareVersions out target seen >>= _) = _
        rw [hlt seen hbelow]
        rfl

/-- A version is recorded if there is none yet or it is above the one there is. -/
inductive Recorded (out : Outside M S V) (channel version : String) (file : File) :
    Except String Unit × File → Prop
  | kept (r : Except String Unit) : Recorded out channel version file (r, file)
  | raised {g : Guard} (hload : file.load = .ok g)
      (hseen : ∀ old, g.highestSeen channel = some old → Below out old version) :
      Recorded out channel version file (.ok (), .present { g with
        highestSeen := Function.update g.highestSeen channel (some version) })

theorem recorded_recordSeen (channel version : String) (saves : Bool) (file : File) :
    Recorded out channel version file (recordSeen out channel version saves file) := by
  unfold recordSeen
  split
  · exact .kept _
  next g hload =>
  split
  · exact .kept _
  · exact .kept _
  next hhigher =>
  split
  · refine .raised hload fun old hold => ?_
    unfold isHigher at hhigher
    rw [hold] at hhigher
    dsimp only at hhigher
    cases hcompare : compareVersions out version old with
    | error e =>
      rw [hcompare] at hhigher
      cases hhigher
    | ok o =>
      rw [hcompare] at hhigher
      have ho : decide (o = .gt) = true := Except.ok.inj hhigher
      rw [of_decide_eq_true ho] at hcompare
      exact below_of_compareVersions hcompare
  · exact .kept _

end Versions

/-! ### Sequences of calls -/

section Runs

variable {init file : File} {past : List (Accepted M)}

/-- The keys of a file that can be read. -/
def File.keys (file : File) : List RotatedKey :=
  match file.load with
  | .ok g => g.keys
  | .error _ => []

theorem eq_of_load_present {g g' : Guard} (h : (File.present g).load = .ok g') : g' = g := by
  simp only [File.load] at h
  split at h
  · cases h
  · exact (Except.ok.inj h).symm

/-- What a call accepts on the word of a key list. -/
theorem accepted_of_listed {c : Ctx M} {raw listRaw : M} {listSig : String} {g : Guard} {sig : S}
    {list : KeyList} (hload : file.load = .ok g) (hsig : c.fetchSig.toOption.bind out.decode = some sig)
    (htrusts : trusts out c g raw sig = false) (hkeys : c.fetchKeys = some (listRaw, listSig))
    (hlist : out.keyList listRaw = some list) (hok : (verifyRelease out c raw file).1 = .ok true) :
    (Call.verifyRelease raw c).accepted out file = [⟨c.channel, c.now, listRaw, list⟩] := by
  have hdirect : direct out c raw g = false := by
    unfold direct
    rw [hsig]
    exact htrusts
  unfold Call.accepted
  dsimp only
  rw [hload, hkeys]
  dsimp only
  rw [hok]
  dsimp only
  rw [hdirect, hlist]
  rfl

/-- The keys of an accepted list are vouched for, with those that were there. -/
theorem AllVouched.listed {keys : List RotatedKey} {c : Ctx M} {g g' : Guard} {listRaw : M}
    {list : KeyList} (hg : AllVouched out Signed keys past g)
    (hsigned : SignedByTrusted out Signed keys c.channel c.now past listRaw)
    (hlist : out.keyList listRaw = some list) (hchannel : list.channel = c.channel)
    (hextends : Extends c g list.keys g') :
    AllVouched out Signed keys (past ++ [⟨c.channel, c.now, listRaw, list⟩]) g' := by
  intro k hk
  obtain hk | ⟨hc, hk⟩ := hextends.keys k hk
  · exact (hg k hk).append _
  · rw [hc]
    exact SignedByTrusted.vouches (a := ⟨c.channel, c.now, listRaw, list⟩) hsigned hlist hchannel hk

theorem AllVouched.append {keys : List RotatedKey} {g : Guard} (hg : AllVouched out Signed keys past g)
    (more : List (Accepted M)) : AllVouched out Signed keys (past ++ more) g :=
  fun k hk => (hg k hk).append more

variable (hideal : ∀ text sig key, verifies out text sig key = true → Signed key text)

include hideal

/-- After a call that accepts a release, and by it: who signed the release, and the keys. -/
theorem verifyRelease_step (hvouched : ∀ g, file.load = .ok g → AllVouched out Signed init.keys past g)
    (c : Ctx M) (raw : M) :
    ((verifyRelease out c raw file).1 = .ok true → SignedByTrusted out Signed init.keys c.channel c.now
        (past ++ (Call.verifyRelease raw c).accepted out file) raw) ∧
    ∀ g, (verifyRelease out c raw file).2.load = .ok g →
      AllVouched out Signed init.keys (past ++ (Call.verifyRelease raw c).accepted out file) g := by
  have hverified : Verified out c raw file (verifyRelease out c raw file) :=
    verified_verifyRelease c raw file
  generalize hr : verifyRelease out c raw file = r at hverified ⊢
  cases hverified with
  | refused hne => exact ⟨fun hok => absurd hok hne, fun g hg => (hvouched g hg).append _⟩
  | direct hload hsig htrusts =>
    refine ⟨fun _ => ?_, fun g hg => (hvouched g hg).append _⟩
    exact (signedByTrusted_of_trusts hideal (hvouched _ hload) htrusts).append _
  | @listed g g' sig listRaw listSig file' hload hsig htrusts hkeys hread hfile =>
    obtain ⟨lsig, list, htrustsList, hlist, hchannel, hextends, hmanifest⟩ := readList_spec hread
    have hok : (verifyRelease out c raw file).1 = .ok true := by rw [hr]
    rw [accepted_of_listed hload hsig htrusts hkeys hlist hok]
    have hnew := (hvouched g hload).listed
      (signedByTrusted_of_trusts hideal (hvouched g hload) htrustsList) hlist hchannel hextends
    refine ⟨fun _ => signedByTrusted_of_trusts hideal hnew hmanifest, fun g₁ hg₁ => ?_⟩
    obtain rfl | ⟨-, rfl⟩ := hfile
    · exact (hvouched g₁ hg₁).append _
    · rw [eq_of_load_present hg₁]
      exact hnew

theorem Runs.vouched [LinearOrder V] (h : Runs out init file past) (g : Guard) (hg : file.load = .ok g) :
    AllVouched out Signed init.keys past g := by
  induction h generalizing g with
  | start =>
    intro k hk
    refine .initial ?_ rfl
    unfold File.keys
    rw [hg]
    exact hk
  | @call file past hrun call ih =>
    cases call with
    | verifyRelease raw c => exact (verifyRelease_step hideal ih c raw).2 g hg
    | checkVersion channel installed target allowDowngrade => exact (ih g hg).append _
    | recordSeen channel version saves =>
      have hrecorded : Recorded out channel version file (recordSeen out channel version saves file) :=
        recorded_recordSeen channel version saves file
      have hg' : (recordSeen out channel version saves file).2.load = .ok g := hg
      generalize recordSeen out channel version saves file = r at hrecorded hg'
      cases hrecorded with
      | kept r => exact (ih g hg').append _
      | @raised g₀ hload hseen =>
        rw [eq_of_load_present hg']
        exact (ih g₀ hload).append _

omit hideal

variable [LinearOrder V]

/-- The highest version of a channel. -/
def File.highestSeen (file : File) (channel : String) : Option String :=
  match file with
  | .present g => g.highestSeen channel
  | _ => none

theorem highestSeen_of_load {g : Guard} (h : file.load = .ok g) : file.highestSeen = g.highestSeen := by
  cases file with
  | missing =>
    cases h
    rfl
  | unreadable => cases h
  | present g₀ =>
    rw [eq_of_load_present h]
    rfl

/-- The highest version of a channel stays or rises. -/
theorem highestSeen_step (call : Call M) {channel old : String}
    (hold : file.highestSeen channel = some old) :
    ∃ new, (call.run out file).2.highestSeen channel = some new ∧ (new = old ∨ Below out old new) := by
  cases call with
  | verifyRelease raw c =>
    have hverified : Verified out c raw file (verifyRelease out c raw file) :=
      verified_verifyRelease c raw file
    show ∃ new, (verifyRelease out c raw file).2.highestSeen channel = some new ∧ _
    generalize verifyRelease out c raw file = r at hverified ⊢
    cases hverified with
    | refused hne => exact ⟨old, hold, .inl rfl⟩
    | direct hload hsig htrusts => exact ⟨old, hold, .inl rfl⟩
    | listed hload hsig htrusts hkeys hread hfile =>
      obtain rfl | ⟨-, rfl⟩ := hfile
      · exact ⟨old, hold, .inl rfl⟩
      · obtain ⟨_, _, -, -, -, hextends, -⟩ := readList_spec hread
        refine ⟨old, ?_, .inl rfl⟩
        rw [highestSeen_of_load hload] at hold
        exact (congrFun hextends.highestSeen channel).trans hold
  | checkVersion channel' installed target allowDowngrade => exact ⟨old, hold, .inl rfl⟩
  | recordSeen channel' version saves =>
    have hrecorded : Recorded out channel' version file (recordSeen out channel' version saves file) :=
      recorded_recordSeen channel' version saves file
    show ∃ new, (recordSeen out channel' version saves file).2.highestSeen channel = some new ∧ _
    generalize recordSeen out channel' version saves file = r at hrecorded ⊢
    cases hrecorded with
    | kept r => exact ⟨old, hold, .inl rfl⟩
    | raised hload hseen =>
      rw [highestSeen_of_load hload] at hold
      by_cases hchannel : channel = channel'
      · subst hchannel
        exact ⟨version, Function.update_self _ _ _, .inr (hseen old hold)⟩
      · exact ⟨old, (Function.update_of_ne hchannel _ _).trans hold, .inl rfl⟩

theorem Runs.highestSeen (h : Runs out init file past) {channel old : String}
    (hold : init.highestSeen channel = some old) :
    ∃ new, file.highestSeen channel = some new ∧ (new = old ∨ Below out old new) := by
  induction h with
  | start => exact ⟨old, hold, .inl rfl⟩
  | call hrun call ih =>
    obtain ⟨mid, hmid, hle⟩ := ih
    obtain ⟨new, hnew, hle'⟩ : ∃ new, (call.run out _).2.highestSeen channel = some new ∧
      (new = mid ∨ Below out mid new) := highestSeen_step call hmid
    refine ⟨new, hnew, ?_⟩
    obtain rfl | hle' := hle'
    · exact hle
    obtain rfl | hle := hle
    · exact .inr hle'
    · exact .inr (hle.trans hle')

/-- A call that answers with an error, or verifies without leave to write, leaves the file. -/
theorem run_eq_of_error (call : Call M)
    (h : (∃ e, (call.run out file).1 = .error e) ∨
      ∃ raw c, call = .verifyRelease raw c ∧ c.persist = false) :
    (call.run out file).2 = file := by
  cases call with
  | verifyRelease raw c =>
    have hverified : Verified out c raw file (verifyRelease out c raw file) :=
      verified_verifyRelease c raw file
    have herror : (∃ e, (verifyRelease out c raw file).1 = .error e) ∨ c.persist = false := by
      obtain h | ⟨_, _, hcall, hpersist⟩ := h
      · exact .inl h
      · cases hcall
        exact .inr hpersist
    show (verifyRelease out c raw file).2 = file
    generalize verifyRelease out c raw file = r at hverified herror ⊢
    cases hverified with
    | refused hne => rfl
    | direct hload hsig htrusts => rfl
    | listed hload hsig htrusts hkeys hread hfile => simp_all
  | checkVersion channel installed target allowDowngrade => rfl
  | recordSeen channel version saves =>
    have hrecorded : Recorded out channel version file (recordSeen out channel version saves file) :=
      recorded_recordSeen channel version saves file
    have herror : ∃ e, (recordSeen out channel version saves file).1.map (fun _ => true) = .error e := by
      obtain h | ⟨_, _, hcall, -⟩ := h
      · exact h
      · cases hcall
    show (recordSeen out channel version saves file).2 = file
    generalize recordSeen out channel version saves file = r at hrecorded herror ⊢
    cases hrecorded with
    | kept r => rfl
    | raised hload hseen =>
      obtain ⟨e, he⟩ := herror
      cases he

/-- Whatever calls were made: an accepted release is signed by the key built in or by a key of a
chain of accepted lists, the highest version seen of a channel does not fall, a target below it
or below what is installed is refused, and a call that fails or may not write leaves the file. -/
theorem trust_chain (hideal : ∀ text sig key, verifies out text sig key = true → Signed key text)
    (h : Runs out init file past) :
    (∀ raw c, (verifyRelease out c raw file).1 = .ok true →
      SignedByTrusted out Signed init.keys c.channel c.now
        (past ++ (Call.verifyRelease raw c).accepted out file) raw) ∧
    (∀ channel old, init.highestSeen channel = some old →
      ∃ new, file.highestSeen channel = some new ∧ (new = old ∨ Below out old new)) ∧
    (∀ channel installed target, (Below out target installed ∨
        ∃ seen, file.highestSeen channel = some seen ∧ Below out target seen) →
      ∃ e, ((Call.checkVersion channel installed target false).run out file).1 = .error e) ∧
    ∀ call : Call M, ((∃ e, (call.run out file).1 = .error e) ∨
        ∃ raw c, call = .verifyRelease raw c ∧ c.persist = false) →
      (call.run out file).2 = file := by
  refine ⟨fun raw c => ?_, fun channel old hold => h.highestSeen hold, ?_, run_eq_of_error⟩
  · exact (verifyRelease_step hideal (h.vouched hideal) c raw).1
  · intro channel installed target hbelow
    cases hload : file.load with
    | error e =>
      refine ⟨e, ?_⟩
      show (file.load.bind _ : Except String Bool) = _
      rw [hload]
      rfl
    | ok g =>
      rw [highestSeen_of_load hload] at hbelow
      obtain ⟨e, he⟩ := checkVersion_refuses hbelow
      refine ⟨e, ?_⟩
      show (file.load.bind _ : Except String Bool) = _
      rw [hload]
      show (checkVersion out g channel installed target false).map _ = _
      rw [he]
      rfl

end Runs

/-! ### A rotation -/

/-- The old key signed the list `0`, and the new one the release `1`. -/
def plainSigned (key : String) (text : ℕ) : Bool := [("old", 0), ("new", 1)].contains (key, text)

/-- A signature is the name of its key. -/
def plainOutside : Outside ℕ String ℕ where
  isKey := fun _ => true
  decode := some
  verify := fun text sig key => sig = key && plainSigned key text
  keyList := fun text => if text = 0 then some ⟨1, "stable", [⟨"new", "2030-01-01"⟩]⟩ else none
  version := fun s => some s.length
  baked := fun _ => some "old"

/-- A release signed by the new key, with the list signed by the old one. -/
def plainCtx : Ctx ℕ := ⟨"stable", true, 0, 0, .ok "new", some (0, "old"), true⟩

/-- The release is accepted on the word of the list. -/
theorem trust_chain_rotation : (verifyRelease plainOutside plainCtx 1 .missing).1 = .ok true ∧
    SignedByTrusted plainOutside (fun key text => plainSigned key text = true) [] "stable" 0
      ((Call.verifyRelease 1 plainCtx).accepted plainOutside .missing) 1 := by
  have hok : (verifyRelease plainOutside plainCtx 1 .missing).1 = .ok true := by decide
  have hstart : Runs plainOutside .missing .missing [] := .start
  refine ⟨hok, (trust_chain (fun text sig key h => ?_) hstart).1 1 plainCtx hok⟩
  have hverify : (decide (sig = key) && plainSigned key text) = true := (Bool.and_eq_true_iff.mp h).2
  exact (Bool.and_eq_true_iff.mp hverify).2

end Plur1bus.Release
