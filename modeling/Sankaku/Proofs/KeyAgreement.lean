import Sankaku.Model.DefaultHasher
import Sankaku.Proofs.KeySchedule

namespace Sankaku
open LittleEndian Encoding

/-- What one side sends with, the other receives with. -/
structure SessionKeys.Crosswise (client server : SessionKeys) : Prop where
  payload : client.payloadTx = server.payloadRx ∧ client.payloadRx = server.payloadTx
  header : client.headerTx = server.headerRx ∧ client.headerRx = server.headerTx

theorem SessionKeys.forRole_crosswise (payloadC2s payloadS2c headerC2s headerS2c : Octets 32) :
    (forRole .client payloadC2s payloadS2c headerC2s headerS2c).Crosswise
      (forRole .server payloadC2s payloadS2c headerC2s headerS2c) :=
  ⟨⟨rfl, rfl⟩, ⟨rfl, rfl⟩⟩

section Agreement
variable {hash : Bytes → UInt64}

/-- Both ends derive one secret, and with it keys that match crosswise, whatever
the transcript. -/
structure KeyExchange.Agree (client server : KeyExchange hash) : Prop where
  secret : client.deriveSharedSecret server.publicKey.bytes =
    server.deriveSharedSecret client.publicKey.bytes
  keys : ∀ context, (deriveSessionKeys hash (client.deriveSharedSecret server.publicKey.bytes)
      .client context).Crosswise
    (deriveSessionKeys hash (server.deriveSharedSecret client.publicKey.bytes) .server context)

/-- The keys match as soon as the secrets do. -/
theorem KeyExchange.agree_iff (client server : KeyExchange hash) :
    client.Agree server ↔ client.deriveSharedSecret server.publicKey.bytes =
      server.deriveSharedSecret client.publicKey.bytes := by
  constructor
  · intro h
    exact h.secret
  · intro h
    refine ⟨h, fun context => ?_⟩
    rw [h]
    exact SessionKeys.forRole_crosswise _ _ _ _

/-- `diffie_hellman` orders the two keys, so that what it hashes is their
unordered pair. -/
theorem material_eq_iff (a b : StaticSecret) (p q : PublicKey) :
    a.material p = b.material q ↔
      (a.bytes = b.bytes ∧ p.bytes = q.bytes) ∨ (a.bytes = q.bytes ∧ p.bytes = b.bytes) := by
  obtain ⟨⟨a, ha⟩⟩ := a
  obtain ⟨⟨b, hb⟩⟩ := b
  obtain ⟨⟨p, hp⟩⟩ := p
  obtain ⟨⟨q, hq⟩⟩ := q
  have swap : ∀ xs ys : Bytes, (if xs ≤ ys then xs ++ ys else ys ++ xs) =
      if ys ≤ xs then ys ++ xs else xs ++ ys := by
    intro xs ys
    by_cases hxy : xs ≤ ys
    · by_cases hyx : ys ≤ xs
      · rw [List.le_antisymm hxy hyx]
      · rw [if_pos hxy, if_neg hyx]
    · have hyx : ys ≤ xs := (List.le_total xs ys).resolve_left hxy
      rw [if_neg hxy, if_pos hyx]
  simp only [StaticSecret.material, Subtype.mk.injEq]
  constructor
  · intro h
    split at h <;> split at h
    · exact .inl (List.append_inj h (ha.trans hb.symm))
    · exact .inr (List.append_inj h (ha.trans hq.symm))
    · exact .inr (List.append_inj h (hp.trans hb.symm)).symm
    · exact .inl (List.append_inj h (hp.trans hq.symm)).symm
  · rintro (⟨rfl, rfl⟩ | ⟨rfl, rfl⟩)
    · rfl
    · exact swap a p

theorem material_length (a : StaticSecret) (p : PublicKey) : (a.material p).length = 64 := by
  have ha := a.bytes.property
  have hp := p.bytes.property
  unfold StaticSecret.material
  split <;> rw [List.length_append] <;> omega

/-- The bytes hashed for a shared secret. -/
def sharedStream (material : Bytes) : Bytes :=
  hashSlice material ++ (hashSlice (ascii "sankaku/legacy-kx/shared/v1") ++
    hashSlice (ascii "legacy-kx"))

theorem sharedStream_inj (hm : m.length = 64) (hn : n.length = 64)
    (h : sharedStream m = sharedStream n) : m = n :=
  Subtype.mk.inj (@prefixFree_hashSlice ⟨m, by omega⟩ ⟨n, by omega⟩ _ _ h).1

/-- Of a hash that does not collide on the two materials the exchange asks one of
two things: equal secrets, or keys that are their own public keys. -/
theorem agree_iff_of_separates (client server : KeyExchange hash)
    (separates : client.deriveSharedSecret server.publicKey.bytes =
        server.deriveSharedSecret client.publicKey.bytes →
      client.secret.material server.publicKey = server.secret.material client.publicKey) :
    client.Agree server ↔ client.secret = server.secret ∨
      (client.publicKey.bytes = client.secret.bytes ∧
        server.publicKey.bytes = server.secret.bytes) := by
  have hmaterial := material_eq_iff client.secret server.secret server.publicKey client.publicKey
  have hagree : client.Agree server ↔
      client.secret.material server.publicKey = server.secret.material client.publicKey := by
    rw [KeyExchange.agree_iff]
    refine ⟨separates, fun h => ?_⟩
    simp only [KeyExchange.deriveSharedSecret, StaticSecret.diffieHellman, h]
  rw [hagree, hmaterial]
  constructor
  · rintro (⟨h, _⟩ | ⟨hc, hs⟩)
    · exact .inl (StaticSecret.ext h)
    · exact .inr ⟨hc.symm, hs⟩
  · rintro (h | ⟨hc, hs⟩)
    · refine .inl ⟨by rw [h], ?_⟩
      rw [client.derived, server.derived, h]
    · exact .inr ⟨hc.symm, hs⟩

end Agreement

/-- The output bytes under a hash of 0, which stand for a public key. -/
def zeroKey : PublicKey := ⟨⟨prfBytes 0 0 32, prfBytes_length 0 0 32⟩⟩

/-- Picks one byte stream out. -/
def hashOf (stream : Bytes) : Bytes → UInt64 := fun s => if s = stream then 1 else 0

/-- No public key is derived from the stream of a shared secret. -/
theorem ofSecret_hashOf (hm : m.length = 64) (secret : StaticSecret) :
    PublicKey.ofSecret (hashOf (sharedStream m)) secret = zeroKey := by
  have hsecret := secret.bytes.property
  have hpublic : (ascii "sankaku/legacy-kx/public/v1").length = 27 := by decide
  have hshared : (ascii "sankaku/legacy-kx/shared/v1").length = 27 := by decide
  have hnonce : (ascii "legacy-public").length = 13 := by decide
  have hnonce' : (ascii "legacy-kx").length = 9 := by decide
  have hne : hashSlice secret.bytes.val ++ (hashSlice (ascii "sankaku/legacy-kx/public/v1") ++
      hashSlice (ascii "legacy-public")) ≠ sharedStream m := by
    intro h
    have hlen := congrArg List.length h
    simp only [sharedStream, hashSlice, List.length_append, toLE_length, hm, hsecret, hpublic,
      hshared, hnonce, hnonce'] at hlen
    omega
  simp only [PublicKey.ofSecret, pseudoPrf, hashOf, if_neg hne, zeroKey]

/-- The two ends agree whatever the hash if and only if they hold one secret. -/
theorem key_agreement_iff (client server : StaticSecret) :
    (∀ hash, (KeyExchange.new hash client).Agree (KeyExchange.new hash server)) ↔
      client = server := by
  constructor
  · intro h
    by_contra hne
    -- A hash that tells the client's material from every other input.
    have hm := material_length client zeroKey
    have hagree := (h (hashOf (sharedStream (client.material zeroKey)))).secret
    have hother :
        sharedStream (server.material zeroKey) ≠ sharedStream (client.material zeroKey) := by
      intro hs
      have hsame := sharedStream_inj (material_length server zeroKey) hm hs
      rcases (material_eq_iff server client zeroKey zeroKey).mp hsame with ⟨hb, _⟩ | ⟨hs, hc⟩
      · exact hne (StaticSecret.ext hb.symm)
      · exact hne (StaticSecret.ext (hc.symm.trans hs.symm))
    simp only [KeyExchange.deriveSharedSecret, KeyExchange.new, ofSecret_hashOf hm,
      StaticSecret.diffieHellman, pseudoPrf, Subtype.mk.injEq] at hagree
    change prfBytes (hashOf _ (sharedStream (client.material zeroKey))) 0 32 =
      prfBytes (hashOf _ (sharedStream (server.material zeroKey))) 0 32 at hagree
    rw [hashOf, hashOf, if_pos rfl, if_neg hother] at hagree
    exact absurd hagree (by decide)
  · rintro rfl hash
    exact (KeyExchange.agree_iff _ _).mpr rfl

/-- Secrets of all ones and all twos under the hash of std. -/
theorem keys_disagree :
    ¬ (KeyExchange.new DefaultHasher.hash ⟨.fill 32 1⟩).Agree
      (KeyExchange.new DefaultHasher.hash ⟨.fill 32 2⟩) := by
  rw [KeyExchange.agree_iff]
  decide +kernel

end Sankaku
