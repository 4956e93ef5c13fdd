import Plur1bus.Release.Trust

/-!
A key that is announced again with a later expiry. Two things stand in its way. A
manifest signed by a key that is remembered as expired is refused before the list is
asked for; and a list adds only keys that are not known, so that an entry keeps the
expiry it was first announced with. Otherwise the release is accepted, and the key
is trusted until the expiry of its list without the list.
-/

namespace Plur1bus.Release

open List

variable {M S V : Type} {out : Outside M S V} {c : Ctx M} {raw : M} {sig : S} {g : Guard} {K : String}

/-- The entries of a key on the channel. -/
def entriesOf (c : Ctx M) (K : String) (g : Guard) : List RotatedKey :=
  g.keys.filter fun k => k.channel = c.channel && k.publicKey = K

/-- An entry whose expiry is not before `t`. -/
def Until (t : ℤ) (k : RotatedKey) : Prop := ∃ t', parseTime k.expires = some t' ∧ t ≤ t'

/-- What a list puts into the guard for a key that is not there: its first listing. -/
def firstEntry (c : Ctx M) (K : String) (keys : List ListedKey) : Option RotatedKey :=
  (keys.find? fun k => k.publicKey = K).map fun k => ⟨c.channel, K, k.expires, c.nowMs⟩

/-- Signatures are ideal: what the signature is of, no other key signed. -/
def OnlySigner (out : Outside M S V) (raw : M) (sig : S) (K : String) : Prop :=
  ∀ key, verifies out raw sig key = true ↔ key = K

/-- A release signed by the key, offered with a well formed list that a trusted key
signed and that announces the key until `t`. -/
structure Renewal (out : Outside M S V) (c : Ctx M) (raw : M) (K : String) (g : Guard) (list : KeyList)
    (t : ℤ) : Prop where
  baked_ok : ∀ b, out.baked c.channel = some b → out.isKey b = true
  signed : ∃ text sig, c.fetchSig = .ok text ∧ out.decode text = some sig ∧ OnlySigner out raw sig K
  offered : ∃ listRaw listSig lsig, c.fetchKeys = some (listRaw, listSig) ∧
    out.decode listSig = some lsig ∧ trusts out c g listRaw lsig = true ∧ out.keyList listRaw = some list
  schema : list.schemaVersion = SCHEMA_VERSION
  channel : list.channel = c.channel
  keys_ok : ∀ k ∈ list.keys, out.isKey k.publicKey = true ∧ ∃ t', parseTime k.expires = some t'
  listed : ∃ k ∈ list.keys, k.publicKey = K ∧ parseTime k.expires = some t
  later : c.now < t
  unexpired : ∀ k ∈ list.keys, k.publicKey = K → ∀ t', parseTime k.expires = some t' → c.now < t'

/-! ### What trusting a key comes to -/

theorem trusts_iff (hsig : OnlySigner out raw sig K) : trusts out c g raw sig = true ↔
    out.baked c.channel = some K ∨
      ∃ k ∈ entriesOf c K g, ∃ t, parseTime k.expires = some t ∧ c.now < t := by
  rw [trusts, List.any_eq_true]
  constructor
  · rintro ⟨key, hkey, hverifies⟩
    obtain rfl := (hsig key).mp hverifies
    rw [trusted, mem_append, Option.mem_toList, mem_map] at hkey
    obtain hbaked | ⟨k, hk, hkey⟩ := hkey
    · exact Or.inl hbaked
    · rw [live, mem_filter, Bool.and_eq_true, decide_eq_true_eq, Option.any_eq_true] at hk
      obtain ⟨hmem, hchannel, t, ht, hnow⟩ := hk
      refine Or.inr ⟨k, mem_filter.mpr ⟨hmem, ?_⟩, t, ht, of_decide_eq_true hnow⟩
      simp [hchannel, hkey]
  · intro h
    refine ⟨K, ?_, (hsig K).mpr rfl⟩
    rw [trusted, mem_append, Option.mem_toList, mem_map]
    obtain hbaked | ⟨k, hk, t, ht, hnow⟩ := h
    · exact Or.inl hbaked
    · rw [entriesOf, mem_filter, Bool.and_eq_true, decide_eq_true_eq, decide_eq_true_eq] at hk
      obtain ⟨hmem, hchannel, hkey⟩ := hk
      refine Or.inr ⟨k, ?_, hkey⟩
      rw [live, mem_filter, Bool.and_eq_true, decide_eq_true_eq, Option.any_eq_true]
      exact ⟨hmem, hchannel, t, ht, decide_eq_true hnow⟩

theorem expired_iff (hsig : OnlySigner out raw sig K) :
    ((expired c g).any fun k => verifies out raw sig k.publicKey) = true ↔
      ∃ k ∈ entriesOf c K g, ∀ t, parseTime k.expires = some t → t ≤ c.now := by
  rw [List.any_eq_true]
  constructor
  · rintro ⟨k, hk, hverifies⟩
    have hkey := (hsig _).mp hverifies
    rw [expired, mem_filter, Bool.and_eq_true, decide_eq_true_eq, Option.all_eq_true] at hk
    obtain ⟨hmem, hchannel, hall⟩ := hk
    refine ⟨k, mem_filter.mpr ⟨hmem, by simp [hchannel, hkey]⟩, ?_⟩
    exact fun t ht => of_decide_eq_true (hall t ht)
  · rintro ⟨k, hk, hall⟩
    rw [entriesOf, mem_filter, Bool.and_eq_true, decide_eq_true_eq, decide_eq_true_eq] at hk
    obtain ⟨hmem, hchannel, hkey⟩ := hk
    refine ⟨k, ?_, (hsig _).mpr hkey⟩
    rw [expired, mem_filter, Bool.and_eq_true, decide_eq_true_eq, Option.all_eq_true]
    exact ⟨hmem, hchannel, fun t ht => decide_eq_true (hall t ht)⟩

/-! ### Reading the list -/

theorem entriesOf_eq_nil : entriesOf c K g = [] ↔
    (g.keys.any fun k => k.channel = c.channel && k.publicKey = K) = false := by
  rw [entriesOf, filter_eq_nil_iff, any_eq_false]

/-- One key of a well formed list: the entries of `K` change only where it is `K` and the
first of its entries. -/
theorem scanKey_renewal (hsig : OnlySigner out raw sig K) {s : Scan} {k : ListedKey}
    (hkey : out.isKey k.publicKey = true) {t' : ℤ} (ht' : parseTime k.expires = some t')
    (hlater : k.publicKey = K → c.now < t') :
    ∃ s', scanKey out c raw sig s k = .ok s' ∧ s'.signerExpired = s.signerExpired ∧
      s'.guard.schemaVersion = s.guard.schemaVersion ∧
      entriesOf c K s'.guard = if entriesOf c K s.guard = [] ∧ k.publicKey = K
        then [⟨c.channel, K, k.expires, c.nowMs⟩] else entriesOf c K s.guard := by
  unfold scanKey
  rw [if_neg (by simp [hkey]), ht']
  dsimp only
  by_cases hpast : t' ≤ c.now
  · -- a listing that has expired is none of the signer
    have hne : k.publicKey ≠ K := fun h => absurd (hlater h) (not_lt.mpr hpast)
    have hverifies : verifies out raw sig k.publicKey ≠ true := fun h => hne ((hsig _).mp h)
    rw [if_pos hpast, if_neg hverifies]
    exact ⟨s, rfl, rfl, rfl, (if_neg fun h => hne h.2).symm⟩
  rw [if_neg hpast]
  by_cases hknown : (s.guard.keys.any fun g => g.channel = c.channel && g.publicKey = k.publicKey) = true
  · rw [if_pos hknown]
    refine ⟨s, rfl, rfl, rfl, (if_neg ?_).symm⟩
    rintro ⟨hnil, rfl⟩
    rw [entriesOf_eq_nil, hknown] at hnil
    cases hnil
  · rw [if_neg hknown]
    refine ⟨_, rfl, rfl, rfl, ?_⟩
    rw [entriesOf, filter_append]
    by_cases hK : k.publicKey = K
    · subst hK
      have hnil : entriesOf c k.publicKey s.guard = [] := entriesOf_eq_nil.mpr (Bool.not_eq_true _ ▸ hknown)
      rw [if_pos ⟨hnil, rfl⟩]
      show entriesOf c k.publicKey s.guard ++ _ = _
      rw [hnil]
      simp
    · rw [if_neg fun h => hK h.2]
      show entriesOf c K s.guard ++ _ = _
      simp [hK]

theorem firstEntry_cons (k : ListedKey) (keys : List ListedKey) : firstEntry c K (k :: keys) =
    if k.publicKey = K then some ⟨c.channel, K, k.expires, c.nowMs⟩ else firstEntry c K keys := by
  rw [firstEntry, List.find?_cons]
  split_ifs with hK <;> simp [hK, firstEntry]

/-- A well formed list is read to its end: nothing is said of the signer, and the key
has the entries it had, or that of its first listing. -/
theorem foldlM_renewal (hsig : OnlySigner out raw sig K) {keys : List ListedKey} {s : Scan}
    (hok : ∀ k ∈ keys, out.isKey k.publicKey = true ∧ ∃ t', parseTime k.expires = some t')
    (hlater : ∀ k ∈ keys, k.publicKey = K → ∀ t', parseTime k.expires = some t' → c.now < t') :
    ∃ s', keys.foldlM (scanKey out c raw sig) s = .ok s' ∧ s'.signerExpired = s.signerExpired ∧
      s'.guard.schemaVersion = s.guard.schemaVersion ∧
      entriesOf c K s'.guard = if entriesOf c K s.guard = [] then (firstEntry c K keys).toList
        else entriesOf c K s.guard := by
  induction keys generalizing s with
  | nil =>
    refine ⟨s, rfl, rfl, rfl, ?_⟩
    split_ifs with h
    · exact h
    · rfl
  | cons k keys ih =>
    obtain ⟨⟨hkey, t', ht'⟩, hokRest⟩ := forall_mem_cons.mp hok
    obtain ⟨hkLater, hlaterRest⟩ := forall_mem_cons.mp hlater
    obtain ⟨s₁, hscan, hsigner₁, hschema₁, hentries₁⟩ :=
      scanKey_renewal (s := s) hsig hkey ht' fun h => hkLater h t' ht'
    obtain ⟨s', hfold, hsigner, hschema, hentries⟩ := ih (s := s₁) hokRest hlaterRest
    refine ⟨s', ?_, hsigner.trans hsigner₁, hschema.trans hschema₁, ?_⟩
    · rw [foldlM_cons, hscan]
      exact hfold
    · rw [hentries, hentries₁, firstEntry_cons]
      by_cases hK : k.publicKey = K
      · by_cases hnil : entriesOf c K s.guard = []
        · simp [hK, hnil]
        · simp [hnil]
      · simp [hK]

/-! ### The verification -/

variable {file : File} {text : String}

/-- A release that a trusted key signed is accepted at once. -/
theorem verifyRelease_direct (hload : file.load = .ok g)
    (hbaked : ∀ b, out.baked c.channel = some b → out.isKey b = true) (htext : c.fetchSig = .ok text)
    (hdecode : out.decode text = some sig) (htrusts : trusts out c g raw sig = true) :
    verifyRelease out c raw file = (.ok true, file) := by
  have hsome : ¬ (out.baked c.channel = none ∧ live c g = []) := by
    rintro ⟨hnone, hlive⟩
    rw [trusts, trusted, hnone, hlive] at htrusts
    cases htrusts
  have hvalid : ¬ ((out.baked c.channel).any fun b => !out.isKey b) = true := by
    rw [Option.any_eq_true]
    rintro ⟨b, hb, hbad⟩
    rw [hbaked b hb] at hbad
    cases hbad
  unfold verifyRelease
  rw [hload]
  dsimp only
  rw [if_neg hsome, if_neg hvalid, htext]
  dsimp only
  rw [hdecode]
  dsimp only
  rw [if_pos htrusts]

/-- Without a list only a release that a trusted key signed is accepted. -/
theorem trusts_of_verifyRelease (hload : file.load = .ok g) (hkeys : c.fetchKeys = none)
    (htext : c.fetchSig = .ok text) (hdecode : out.decode text = some sig)
    (hok : (verifyRelease out c raw file).1 = .ok true) : trusts out c g raw sig = true := by
  grind [verifyRelease, trusts, File.load]

/-- A guard of the same schema as one that could be loaded can be loaded. -/
theorem load_present {g' : Guard} (hload : file.load = .ok g)
    (hschema : g'.schemaVersion = g.schemaVersion) : (File.present g').load = .ok g' := by
  have hold : g.schemaVersion ≤ SCHEMA_VERSION := by
    cases file with
    | missing =>
      cases hload
      exact le_refl _
    | unreadable => cases hload
    | present g₀ =>
      rw [File.load] at hload
      split_ifs at hload with hnew
      cases hload
      exact not_lt.mp hnew
  rw [File.load, if_neg (by omega)]

namespace Renewal

variable {list : KeyList} {t : ℤ} {file : File}

/-- The list names the key, so there is a first listing of it, and it has not expired. -/
theorem first (h : Renewal out c raw K g list t) : ∃ k, firstEntry c K list.keys = some k ∧
    ∃ t', parseTime k.expires = some t' ∧ c.now < t' := by
  obtain ⟨k, hk, hkey, -⟩ := h.listed
  rw [firstEntry]
  cases hfind : list.keys.find? fun k => k.publicKey = K with
  | none => exact absurd hkey (by simpa using List.find?_eq_none.mp hfind k hk)
  | some first =>
    have hmem := mem_of_find?_eq_some hfind
    obtain ⟨-, t', ht'⟩ := h.keys_ok first hmem
    exact ⟨_, rfl, t', ht', h.unexpired first hmem (by simpa using List.find?_some hfind) t' ht'⟩

/-- The three ways a renewal goes: the key is trusted anyway, it is remembered as expired,
or it is taken from the list. -/
theorem verifyRelease_eq (h : Renewal out c raw K g list t) (hload : file.load = .ok g)
    (hsaves : c.persist = true → c.saves = true) :
    ((out.baked c.channel = some K ∨ ∃ k ∈ entriesOf c K g, ∃ t', parseTime k.expires = some t' ∧ c.now < t') →
      verifyRelease out c raw file = (.ok true, file)) ∧
    (¬ (out.baked c.channel = some K ∨ ∃ k ∈ entriesOf c K g, ∃ t', parseTime k.expires = some t' ∧ c.now < t') →
      (entriesOf c K g ≠ [] → verifyRelease out c raw file = (.error "release-key-expired", file)) ∧
      (entriesOf c K g = [] → ∃ g', g'.schemaVersion = g.schemaVersion ∧
        entriesOf c K g' = (firstEntry c K list.keys).toList ∧
        verifyRelease out c raw file = (.ok true, if c.persist then .present g' else file))) := by
  obtain ⟨text, sig, htext, hdecode, hsig⟩ := h.signed
  constructor
  · intro htrusted
    exact verifyRelease_direct hload h.baked_ok htext hdecode ((trusts_iff hsig).mpr htrusted)
  · intro huntrusted
    have htrusts := mt (trusts_iff hsig).mp huntrusted
    obtain ⟨listRaw, listSig, lsig, hkeys, hldecode, hltrusts, hlist⟩ := h.offered
    have hsome : ¬ (out.baked c.channel = none ∧ live c g = []) := by
      rintro ⟨hnone, hlive⟩
      rw [trusts, trusted, hnone, hlive] at hltrusts
      cases hltrusts
    have hvalid : ¬ ((out.baked c.channel).any fun b => !out.isKey b) = true := by
      rw [Option.any_eq_true]
      rintro ⟨b, hb, hbad⟩
      rw [h.baked_ok b hb] at hbad
      cases hbad
    unfold verifyRelease
    rw [hload]
    dsimp only
    rw [if_neg hsome, if_neg hvalid, htext]
    dsimp only
    rw [hdecode]
    dsimp only
    rw [if_neg htrusts]
    constructor
    · intro hknown
      -- an entry that is not live has expired
      obtain ⟨k, hk⟩ := exists_mem_of_ne_nil _ hknown
      have hexpired : ((expired c g).any fun k => verifies out raw sig k.publicKey) = true := by
        refine (expired_iff hsig).mpr ⟨k, hk, fun t' ht' => ?_⟩
        by_contra hlive
        exact huntrusted (Or.inr ⟨k, hk, t', ht', not_le.mp hlive⟩)
      rw [if_pos hexpired]
    · intro hnil
      have hexpired : ¬ ((expired c g).any fun k => verifies out raw sig k.publicKey) = true := by
        rw [expired_iff hsig, hnil]
        simp
      obtain ⟨s', hfold, hsigner, hschema, hentries⟩ :=
        foldlM_renewal (s := ⟨g, none⟩) hsig h.keys_ok h.unexpired
      rw [if_pos hnil] at hentries
      -- the list names the key, so that the guard then trusts it
      have hlisted : trusts out c s'.guard raw sig = true := by
        obtain ⟨k, hk, hlive⟩ := h.first
        refine (trusts_iff hsig).mpr (Or.inr ⟨k, ?_, hlive⟩)
        rw [hentries, hk]
        exact mem_singleton.mpr rfl
      have hread : readList out c raw sig g listRaw listSig = .ok s'.guard := by
        unfold readList
        rw [hldecode]
        dsimp only
        rw [if_neg (by simp [hltrusts]), hlist]
        dsimp only
        rw [if_neg (by simp [h.schema, h.channel]), hfold]
        dsimp only
        rw [hsigner, if_neg (by simp), if_pos hlisted]
      refine ⟨s'.guard, hschema, hentries, ?_⟩
      rw [if_neg hexpired, hkeys]
      dsimp only
      rw [hread]
      dsimp only
      cases hpersist : c.persist with
      | false => rfl
      | true =>
        rw [hsaves hpersist]
        rfl

end Renewal

/-! ### The renewal as a whole -/

/-- A later verification of a release signed by the key, before the new expiry and
without the list. -/
structure Follows (out : Outside M S V) (c : Ctx M) (K : String) (t : ℤ) (c' : Ctx M) (raw' : M) : Prop where
  channel : c'.channel = c.channel
  noList : c'.fetchKeys = none
  before : c'.now < t
  signed : ∃ text sig, c'.fetchSig = .ok text ∧ out.decode text = some sig ∧ OnlySigner out raw' sig K

/-- The release is accepted and, if the list is to be remembered, so are the releases
that follow. -/
def Accepts (out : Outside M S V) (c : Ctx M) (raw : M) (K : String) (t : ℤ) (file : File) : Prop :=
  (verifyRelease out c raw file).1 = .ok true ∧
  (c.persist = true → ∀ c' raw', Follows out c K t c' raw' →
    (verifyRelease out c' raw' (verifyRelease out c raw file).2).1 = .ok true)

/-- When a renewal is accepted: the key is built in; or it is trusted already and, where it is
to be remembered, its entry lasts as long as the list says; or it is not known on the
channel and, where it is to be remembered, its first listing lasts as long. -/
def Renewable (out : Outside M S V) (c : Ctx M) (K : String) (g : Guard) (list : KeyList) (t : ℤ) : Prop :=
  out.baked c.channel = some K ∨
  ((∃ k ∈ entriesOf c K g, ∃ t', parseTime k.expires = some t' ∧ c.now < t') ∧
    (c.persist = true → ∃ k ∈ entriesOf c K g, Until t k)) ∨
  (entriesOf c K g = [] ∧ (c.persist = true → ∀ k ∈ firstEntry c K list.keys, Until t k))

/-- The entries a later verification reads are those of the channel. -/
theorem entriesOf_follows {c' : Ctx M} (hchannel : c'.channel = c.channel) (K : String) (g : Guard) :
    entriesOf c' K g = entriesOf c K g := by
  rw [entriesOf, entriesOf, hchannel]

/-- Every release that follows is accepted if and only if the key is built in or has an
entry that lasts as long as the list says. -/
theorem follows_iff {t : ℤ} (hload : file.load = .ok g)
    (hbaked : ∀ b, out.baked c.channel = some b → out.isKey b = true) (htext : c.fetchSig = .ok text)
    (hdecode : out.decode text = some sig) (hsig : OnlySigner out raw sig K) :
    (∀ c' raw', Follows out c K t c' raw' → (verifyRelease out c' raw' file).1 = .ok true) ↔
      out.baked c.channel = some K ∨ ∃ k ∈ entriesOf c K g, Until t k := by
  constructor
  · intro hall
    -- the last moment before the expiry
    have hlast := hall { c with fetchKeys := none, now := t - 1 } raw
      ⟨rfl, rfl, Int.sub_one_lt_of_le (le_refl t), text, sig, htext, hdecode, hsig⟩
    have htrusts := trusts_of_verifyRelease (c := { c with fetchKeys := none, now := t - 1 }) hload rfl
      htext hdecode hlast
    rcases (trusts_iff hsig).mp htrusts with hb | ⟨k, hk, t', ht', hlt⟩
    · exact Or.inl hb
    · refine Or.inr ⟨k, hk, t', ht', ?_⟩
      have hlt' : t - 1 < t' := hlt
      omega
  · rintro hkept c' raw' ⟨hchannel, -, hbefore, text', sig', htext', hdecode', hsig'⟩
    have htrusts : trusts out c' g raw' sig' = true := by
      rw [trusts_iff hsig', hchannel, entriesOf_follows hchannel]
      rcases hkept with hb | ⟨k, hk, t', ht', hle⟩
      · exact Or.inl hb
      · exact Or.inr ⟨k, hk, t', ht', by omega⟩
    rw [verifyRelease_direct hload (hchannel ▸ hbaked) htext' hdecode' htrusts]

/-- A renewal is accepted and remembered if and only if the key is renewable. -/
theorem renewal_iff {file : File} {list : KeyList} {t : ℤ} (hload : file.load = .ok g)
    (h : Renewal out c raw K g list t) (hsaves : c.persist = true → c.saves = true) :
    Accepts out c raw K t file ↔ Renewable out c K g list t := by
  obtain ⟨text, sig, htext, hdecode, hsig⟩ := h.signed
  obtain ⟨hdirect, hother⟩ := h.verifyRelease_eq hload hsaves
  unfold Accepts Renewable
  by_cases htrusted : out.baked c.channel = some K ∨
      ∃ k ∈ entriesOf c K g, ∃ t', parseTime k.expires = some t' ∧ c.now < t'
  · rw [hdirect htrusted, follows_iff hload h.baked_ok htext hdecode hsig]
    constructor
    · grind
    · grind
  · obtain ⟨hexpired, hlisted⟩ := hother htrusted
    rw [not_or] at htrusted
    by_cases hnil : entriesOf c K g = []
    · obtain ⟨g', hschema, hentries, heq⟩ := hlisted hnil
      rw [heq]
      obtain ⟨first, hfirst, -⟩ := h.first
      have hkept : c.persist = true → ((∀ c' raw', Follows out c K t c' raw' →
            (verifyRelease out c' raw' (if c.persist then .present g' else file)).1 = .ok true) ↔
          ∀ k ∈ firstEntry c K list.keys, Until t k) := by
        intro hp
        rw [if_pos hp, follows_iff (load_present hload hschema) h.baked_ok htext hdecode hsig, hentries,
          hfirst, or_iff_right htrusted.1]
        simp
      constructor
      · rintro ⟨-, hall⟩
        exact Or.inr (Or.inr ⟨hnil, fun hp => (hkept hp).mp (hall hp)⟩)
      · simp_all
    · grind

/-! ### A key that expired and is announced again -/

/-- A guard that remembers the new key until the start of time. -/
def staleGuard : Guard := { Guard.default with keys := [⟨"stable", "new", "1970-01-01", 0⟩] }

def plainList : KeyList := ⟨1, "stable", [⟨"new", "2030-01-01"⟩]⟩

theorem plain_signer : OnlySigner plainOutside 1 "new" "new" := by
  intro key
  show (true && (decide ("new" = key) && plainSigned key 1)) = true ↔ key = "new"
  constructor
  · intro h
    simp only [Bool.true_and, Bool.and_eq_true, decide_eq_true_eq] at h
    exact h.1.symm
  · rintro rfl
    decide

/-- A list signed by the old key announces the new one until 2030. -/
theorem plain_renewal (g : Guard) : Renewal plainOutside plainCtx 1 "new" g plainList 1893456000 where
  baked_ok := fun _ _ => rfl
  signed := ⟨"new", "new", rfl, rfl, plain_signer⟩
  offered := by
    refine ⟨0, "old", "old", rfl, rfl, ?_, rfl⟩
    have hold : verifies plainOutside 0 "old" "old" = true := by decide
    rw [trusts, trusted]
    exact List.any_eq_true.mpr ⟨"old", mem_append_left _ (mem_singleton.mpr rfl), hold⟩
  schema := rfl
  channel := rfl
  keys_ok := by
    intro k hk
    rw [mem_singleton.mp hk]
    exact ⟨rfl, 1893456000, by decide⟩
  listed := ⟨_, mem_singleton.mpr rfl, rfl, by decide⟩
  later := by decide
  unexpired := by
    intro k hk _ t' ht'
    rw [mem_singleton.mp hk] at ht'
    have hparse : parseTime "2030-01-01" = some 1893456000 := by decide
    rw [hparse] at ht'
    cases ht'
    decide

/-- The release is refused though the list renews its key. -/
theorem renewal_refused : Renewal plainOutside plainCtx 1 "new" staleGuard plainList 1893456000 ∧
    (verifyRelease plainOutside plainCtx 1 (.present staleGuard)).1 = .error "release-key-expired" :=
  ⟨plain_renewal staleGuard, by decide⟩

/-- A key that is not known is renewable: the rotation of above, remembered. -/
theorem renewal_iff_unknown : Accepts plainOutside plainCtx 1 "new" 1893456000 .missing := by
  refine (renewal_iff rfl (plain_renewal Guard.default) (fun _ => rfl)).mpr (Or.inr (Or.inr ⟨rfl, ?_⟩))
  intro _ k hk
  cases hk
  exact ⟨1893456000, by decide, le_refl _⟩

end Plur1bus.Release
