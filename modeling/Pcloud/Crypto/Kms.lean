import Pcloud.Crypto.Primitives

/-!
# Wrapping keys at a KMS

`pcloud-kms`: the provider interface and the process-local cache of unwrapped data keys. A
provider is whatever it answers. It may answer differently from one call of the shell to the next.
-/

namespace Pcloud

inductive KmsError
  | unreachable
  | authFailed
  | policyDenied
  | keyNotFound (key : String)
  | malformed
  | notImplemented (provider : String)
  | other (message : String)
deriving DecidableEq, Repr

structure KmsProvider where
  name : String
  encryptDek : (keyId : String) → (dek : Bytes) → (context : Option String) → Except KmsError Bytes
  decryptDek : (keyId : String) → (wrapped : Bytes) → (context : Option String) → Except KmsError Bytes

/-- No KMS is configured. Every operation fails. -/
def nullKms : KmsProvider where
  name := "null"
  encryptDek _ _ _ := .error (.notImplemented "null")
  decryptDek _ _ _ := .error (.notImplemented "null")

/-- A KMS that gives back what it gets, to run the model on. -/
def echoKms : KmsProvider where
  name := "echo"
  encryptDek _ dek _ := .ok dek
  decryptDek _ wrapped _ := .ok wrapped

/-! ## The cache -/

structure CacheKey where
  provider : String
  keyId : String
  wrapped : Bytes
  context : Option String
deriving DecidableEq

structure CacheEntry where
  dek : Bytes
  /-- In nanoseconds, on the monotonic clock. -/
  inserted : Nat

abbrev DekCache := CacheKey → Option CacheEntry

def nanosPerSec : Nat := 1000000000

def defaultCacheTtl : Nat := 300 * nanosPerSec

/-- A hit within the TTL. An expired entry is dropped. -/
def cacheLookup (cache : DekCache) (key : CacheKey) (ttl now : Nat) : Option Bytes × DekCache :=
  match cache key with
  | none => (none, cache)
  | some entry =>
    if now - entry.inserted ≤ ttl then (some entry.dek, cache)
    else (none, Function.update cache key none)

def cacheStore (cache : DekCache) (key : CacheKey) (dek : Bytes) (now : Nat) : DekCache :=
  Function.update cache key (some { dek := dek, inserted := now })

def evictCachedDek (cache : DekCache) (key : CacheKey) : DekCache := Function.update cache key none

def unwrapCached (kms : KmsProvider) (now : Nat) (cache : DekCache) (keyId : String) (wrapped : Bytes)
    (context : Option String) : Except KmsError Bytes × DekCache :=
  let key : CacheKey := ⟨kms.name, keyId, wrapped, context⟩
  match cacheLookup cache key defaultCacheTtl now with
  | (some dek, cache) => (.ok dek, cache)
  | (none, cache) =>
    match kms.decryptDek keyId wrapped context with
    | .error e => (.error e, cache)
    | .ok fresh => (.ok fresh, cacheStore cache key fresh now)

/-! ## A KMS that decrypts what it encrypted -/

/-- What was wrapped: key id, wrapped blob, context, data key. -/
abbrev Wrappings := String → Bytes → Option String → Bytes → Prop

structure KmsProvider.Sound (wraps : Wrappings) (kms : KmsProvider) : Prop where
  encrypted : ∀ {keyId dek context wrapped}, kms.encryptDek keyId dek context = .ok wrapped → wraps keyId wrapped context dek
  decrypts : ∀ {keyId wrapped context dek}, wraps keyId wrapped context dek → kms.decryptDek keyId wrapped context = .ok dek

def CacheSound (wraps : Wrappings) (cache : DekCache) : Prop :=
  ∀ key entry, cache key = some entry → wraps key.keyId key.wrapped key.context entry.dek

section sound

variable {wraps : Wrappings} {cache : DekCache}

theorem cacheSound_evict (h : CacheSound wraps cache) (key : CacheKey) : CacheSound wraps (evictCachedDek cache key) := by
  intro other entry hentry
  unfold evictCachedDek at hentry
  by_cases hkey : other = key
  · simp [hkey] at hentry
  · rw [Function.update_of_ne hkey] at hentry
    exact h other entry hentry

theorem cacheSound_store (h : CacheSound wraps cache) {key : CacheKey} {dek : Bytes}
    (hdek : wraps key.keyId key.wrapped key.context dek) (now : Nat) : CacheSound wraps (cacheStore cache key dek now) := by
  intro other entry hentry
  unfold cacheStore at hentry
  by_cases hkey : other = key
  · subst hkey
    rw [Function.update_self] at hentry
    rw [← Option.some.inj hentry]
    exact hdek
  · rw [Function.update_of_ne hkey] at hentry
    exact h other entry hentry

theorem cacheLookup_sound (h : CacheSound wraps cache) (key : CacheKey) (ttl now : Nat) :
    CacheSound wraps (cacheLookup cache key ttl now).2 ∧
      ∀ dek, (cacheLookup cache key ttl now).1 = some dek → wraps key.keyId key.wrapped key.context dek := by
  unfold cacheLookup
  split
  · exact ⟨h, by simp⟩
  · rename_i entry hentry
    split
    · refine ⟨h, ?_⟩
      intro dek hdek
      rw [← Option.some.inj hdek]
      exact h key entry hentry
    · exact ⟨cacheSound_evict h key, by simp⟩

theorem unwrapCached_sound {kms : KmsProvider} (hkms : kms.Sound wraps) (h : CacheSound wraps cache) {keyId : String}
    {wrapped : Bytes} {context : Option String} {dek : Bytes} (hdek : wraps keyId wrapped context dek) (now : Nat) :
    (unwrapCached kms now cache keyId wrapped context).1 = .ok dek ∧
      CacheSound wraps (unwrapCached kms now cache keyId wrapped context).2 := by
  have hdecrypt := hkms.decrypts hdek
  obtain ⟨hcache, hhit⟩ := cacheLookup_sound h ⟨kms.name, keyId, wrapped, context⟩ defaultCacheTtl now
  unfold unwrapCached
  dsimp only
  split
  · rename_i found cache' hlookup
    rw [hlookup] at hcache hhit
    have hfound := hkms.decrypts (hhit found rfl)
    rw [Except.ok.inj (hdecrypt.symm.trans hfound)]
    exact ⟨rfl, hcache⟩
  · rename_i cache' hlookup
    rw [hlookup] at hcache
    rw [hdecrypt]
    exact ⟨rfl, cacheSound_store hcache hdek now⟩

end sound

end Pcloud
