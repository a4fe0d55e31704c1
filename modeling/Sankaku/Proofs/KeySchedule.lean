import Sankaku.Lib.PrefixFree
import Sankaku.Model.DefaultHasher
import Sankaku.Model.Handshake

namespace Sankaku
open LittleEndian Encoding

theorem prefixFree_le16 : PrefixFree le16 := by
  apply PrefixFree.of_length
  · intro m n h
    have hparse := congrArg parseU16Le h
    simpa using hparse
  · exact le16_length

theorem prefixFree_le64 : PrefixFree le64 := by
  apply PrefixFree.of_length
  · intro m n h
    have hparse := congrArg parseU64Le h
    simpa using hparse
  · exact le64_length

theorem prefixFree_octets (n : Nat) : PrefixFree (fun a : Octets n => a.val) := by
  apply PrefixFree.of_length
  · exact Subtype.val_injective
  · exact Subtype.property

/-- A slice is at most `isize::MAX` bytes long. -/
abbrev Slice := { bs : Bytes // bs.length < 2 ^ 63 }

theorem Slice.fits (s : Slice) : s.val.length < 256 ^ 8 := by
  have := s.property
  omega

structure PrfInput where
  material : Slice
  aad : Slice
  nonce : Slice

/-- Everything `pseudo_prf` writes to the hasher. -/
def PrfInput.stream (x : PrfInput) : Bytes :=
  hashSlice x.material.val ++ (hashSlice x.aad.val ++ hashSlice x.nonce.val)

theorem prefixFree_hashSlice : PrefixFree (fun s : Slice => hashSlice s.val) := by
  apply (prefixFree_lengthPrefixed 8).comp (e := fun s : Slice => ⟨s.val, s.fits⟩)
  intro s t h
  apply Subtype.ext
  exact Subtype.mk.inj h

theorem PrfInput.stream_injective : Function.Injective PrfInput.stream := by
  rintro ⟨material, aad, nonce⟩ ⟨material', aad', nonce'⟩ h
  obtain ⟨rfl, h⟩ := prefixFree_hashSlice h
  obtain ⟨rfl, h⟩ := prefixFree_hashSlice h
  obtain rfl := prefixFree_hashSlice.injective h
  rfl

/-- The four labels of the key derivations. -/
inductive KeyLabel
  | payloadC2s
  | payloadS2c
  | headerC2s
  | headerS2c
  deriving DecidableEq, Repr

def KeyLabel.bytes : KeyLabel → Bytes
  | .payloadC2s => ascii "/payload/c2s"
  | .payloadS2c => ascii "/payload/s2c"
  | .headerC2s => ascii "/header/c2s"
  | .headerS2c => ascii "/header/s2c"

def KeyLabel.sessionNonce : KeyLabel → UInt8
  | .payloadC2s => 0xA1
  | .payloadS2c => 0xA2
  | .headerC2s => 0xB1
  | .headerS2c => 0xB2

def KeyLabel.resumptionNonce : KeyLabel → UInt8
  | .payloadC2s => 0xC1
  | .payloadS2c => 0xC2
  | .headerC2s => 0xD1
  | .headerS2c => 0xD2

/-- A call of `pseudo_prf`, by what it is for, with everything it is made from. -/
inductive PrfCall
  | clientTag (protocolVersion capabilities : UInt16) (cipherSuite : UInt8) (sessionId : UInt64)
    (clientPublic : Octets 32)
  | serverTag (protocolVersion capabilities : UInt16) (cipherSuite : UInt8) (sessionId : UInt64)
    (clientPublic serverPublic : Octets 32)
  | sessionKey (label : KeyLabel) (sharedSecret : Octets 32) (context : HandshakeContext)
  | binder (resumptionSecret : Octets 32) (sessionId : UInt64) (ticketIdentity : Bytes)
    (expiresAt : UInt64) (clientNonce : Octets 24)
  | resumptionKey (label : KeyLabel) (resumptionSecret : Octets 32) (sessionId : UInt64)
    (clientNonce : Octets 24)
  | ticketMac (ticketKey : Octets 32) (plaintext nonceBytes : Bytes)
  | legacyPublic (secret : StaticSecret)
  | legacyShared (secret : StaticSecret) (peer : PublicKey)

namespace PrfCall

def material : PrfCall → Bytes
  | clientTag _ _ _ _ clientPublic => clientPublic
  | serverTag _ _ _ _ clientPublic serverPublic => serverTagMaterial clientPublic serverPublic
  | sessionKey _ sharedSecret _ => sharedSecret
  | binder resumptionSecret _ _ _ _ => resumptionSecret
  | resumptionKey _ resumptionSecret _ _ => resumptionSecret
  | ticketMac ticketKey _ _ => ticketKey
  | legacyPublic secret => secret.bytes
  | legacyShared secret peer => secret.material peer

def aad : PrfCall → Bytes
  | clientTag protocolVersion capabilities cipherSuite sessionId clientPublic =>
    buildClientTagAad protocolVersion capabilities cipherSuite sessionId clientPublic
  | serverTag protocolVersion capabilities cipherSuite sessionId clientPublic serverPublic =>
    buildServerTagAad protocolVersion capabilities cipherSuite sessionId clientPublic serverPublic
  | sessionKey label _ context => transcriptAad context label.bytes
  | binder _ sessionId ticketIdentity expiresAt clientNonce =>
    resumptionBinderAad sessionId ticketIdentity expiresAt clientNonce
  | resumptionKey label _ sessionId clientNonce =>
    resumptionKeyAad label.bytes sessionId clientNonce
  | ticketMac _ plaintext _ => ticketAad plaintext
  | legacyPublic _ => ascii "sankaku/legacy-kx/public/v1"
  | legacyShared _ _ => ascii "sankaku/legacy-kx/shared/v1"

def nonce : PrfCall → Bytes
  | clientTag protocolVersion capabilities _ sessionId _ =>
    buildNonce tagLabelClient protocolVersion capabilities sessionId
  | serverTag protocolVersion capabilities _ sessionId _ _ =>
    buildNonce tagLabelServer protocolVersion capabilities sessionId
  | sessionKey label _ context =>
    buildNonce label.sessionNonce context.protocolVersion context.capabilities context.sessionId
  | binder _ sessionId _ _ clientNonce => buildResumptionNonce 0xD1 sessionId clientNonce
  | resumptionKey label _ sessionId clientNonce =>
    buildResumptionNonce label.resumptionNonce sessionId clientNonce
  | ticketMac _ _ nonceBytes => nonceBytes
  | legacyPublic _ => ascii "legacy-public"
  | legacyShared _ _ => ascii "legacy-kx"

def answer (hash : Bytes → UInt64) (c : PrfCall) (outLen : Nat) : Octets outLen :=
  pseudoPrf hash c.material c.aad c.nonce outLen

end PrfCall

/-- How an identity falls apart: nonce in front, MAC at the end, the sealed fields
between them. -/
theorem validate_split (hash : Bytes → UInt64) (ticketKey : Octets 32) (nonceBytes : Octets 12)
    (plaintext : Bytes) (mac : Octets tagSize) (sealed : plaintext ≠ []) (t : UInt64) :
    validateTicketIdentity hash ticketKey (nonceBytes.val ++ (plaintext ++ mac.val)) t =
      if pseudoPrf hash ticketKey (ticketAad plaintext) nonceBytes tagSize = mac then
        (TicketIdentityFields.deserialize plaintext).bind (fun fields => fields.validate t)
      else none := by
  have hnonce := nonceBytes.property
  have hmac : mac.val.length = 16 := mac.property
  have hpos := List.length_pos_iff.mpr sealed
  have hlong : ¬ (nonceBytes.val ++ (plaintext ++ mac.val)).length ≤ 12 + tagSize := by
    rw [List.length_append, List.length_append, hnonce, hmac, tagSize]
    omega
  have hcut : (plaintext ++ mac.val).length - tagSize = plaintext.length := by
    rw [List.length_append, hmac, tagSize]
    omega
  simp only [validateTicketIdentity, if_neg hlong, List.take_left' hnonce, List.drop_left' hnonce,
    hcut, List.take_left, List.drop_left, mac.property, ↓reduceDIte, Subtype.coe_eta,
    Bool.not_eq_true', ← Bool.not_eq_true, constantTimeEq_iff, ite_not]

/-- Every function of the handshake makes the calls named after it, and no others. -/
structure MakesNamedCalls (hash : Bytes → UInt64) : Prop where
  clientTag : ∀ version caps suite sid client, computeClientTag hash version caps suite sid client =
    (PrfCall.clientTag version caps suite sid client).answer hash tagSize
  serverTag : ∀ version caps suite sid client server,
    computeServerTag hash version caps suite sid client server =
      (PrfCall.serverTag version caps suite sid client server).answer hash tagSize
  sessionKeys : ∀ secret role context, deriveSessionKeys hash secret role context =
    .forRole role ((PrfCall.sessionKey .payloadC2s secret context).answer hash 32)
      ((PrfCall.sessionKey .payloadS2c secret context).answer hash 32)
      ((PrfCall.sessionKey .headerC2s secret context).answer hash 32)
      ((PrfCall.sessionKey .headerS2c secret context).answer hash 32)
  binder : ∀ secret sid identity expiresAt nonce,
    computeResumptionBinder hash secret sid identity expiresAt nonce =
      (PrfCall.binder secret sid identity expiresAt nonce).answer hash tagSize
  resumptionKeys : ∀ secret role sid nonce, deriveResumptionSessionKeys hash secret role sid nonce =
    .forRole role ((PrfCall.resumptionKey .payloadC2s secret sid nonce).answer hash 32)
      ((PrfCall.resumptionKey .payloadS2c secret sid nonce).answer hash 32)
      ((PrfCall.resumptionKey .headerC2s secret sid nonce).answer hash 32)
      ((PrfCall.resumptionKey .headerS2c secret sid nonce).answer hash 32)
  ticketIssued : ∀ key lifetimeSecs now draws ticket,
    issueSessionTicket hash key lifetimeSecs now draws = .ok ticket →
    ∃ fields : TicketIdentityFields, ticket.identity = draws.nonceBytes.val ++ (fields.serialize ++
      ((PrfCall.ticketMac key fields.serialize draws.nonceBytes).answer hash tagSize).val)
  ticketTooShort : ∀ key (identity : Bytes) now, identity.length ≤ 12 + tagSize →
    validateTicketIdentity hash key identity now = none
  ticketValidated : ∀ key (nonce : Octets 12) plaintext (mac : Octets tagSize) now, plaintext ≠ [] →
    validateTicketIdentity hash key (nonce.val ++ (plaintext ++ mac.val)) now =
      if (PrfCall.ticketMac key plaintext nonce).answer hash tagSize = mac then
        (TicketIdentityFields.deserialize plaintext).bind (fun fields => fields.validate now)
      else none
  legacyPublic : ∀ secret, PublicKey.ofSecret hash secret =
    ⟨(PrfCall.legacyPublic secret).answer hash 32⟩
  legacyShared : ∀ secret peer, StaticSecret.diffieHellman hash secret peer =
    ⟨(PrfCall.legacyShared secret peer).answer hash 32⟩

theorem calls_named (hash : Bytes → UInt64) : MakesNamedCalls hash where
  clientTag _ _ _ _ _ := rfl
  serverTag _ _ _ _ _ _ := rfl
  sessionKeys _ _ _ := rfl
  binder _ _ _ _ _ := rfl
  resumptionKeys _ _ _ _ := rfl
  ticketIssued key lifetimeSecs now draws ticket h := by
    unfold issueSessionTicket at h
    split at h
    · cases h
    · cases h
      exact ⟨_, rfl⟩
  ticketTooShort key identity now short := by rw [validateTicketIdentity, if_pos short]
  ticketValidated key nonce plaintext mac now sealed :=
    validate_split hash key nonce plaintext mac sealed now
  legacyPublic _ := rfl
  legacyShared _ _ := rfl

inductive Purpose
  | clientTag
  | serverTag
  | sessionKey (label : KeyLabel)
  | binder
  | resumptionKey (label : KeyLabel)
  | ticketMac
  | legacyPublic
  | legacyShared
  deriving DecidableEq, Repr

def KeyLabel.all : List KeyLabel := [.payloadC2s, .payloadS2c, .headerC2s, .headerS2c]

def Purpose.all : List Purpose :=
  [.clientTag, .serverTag, .binder, .ticketMac, .legacyPublic, .legacyShared] ++
    (KeyLabel.all.map .sessionKey ++ KeyLabel.all.map .resumptionKey)

theorem Purpose.mem_all (p : Purpose) : p ∈ Purpose.all := by
  cases p with
  | sessionKey label => cases label <;> decide
  | resumptionKey label => cases label <;> decide
  | _ => decide

/-- The text each `aad` begins with. -/
def Purpose.head : Purpose → Bytes
  | .clientTag => handshakeDomain ++ ascii "/client"
  | .serverTag => handshakeDomain ++ ascii "/server"
  | .sessionKey label => handshakeDomain ++ label.bytes
  | .binder => resumeDomain ++ ascii "/binder"
  | .resumptionKey label => resumeDomain ++ label.bytes
  | .ticketMac => ticketDomain
  | .legacyPublic => ascii "sankaku/legacy-kx/public/v1"
  | .legacyShared => ascii "sankaku/legacy-kx/shared/v1"

theorem prefixFree_head : PrefixFree Purpose.head := by
  have hall : ∀ p ∈ Purpose.all, ∀ q ∈ Purpose.all, p.head <+: q.head → p = q := by
    decide +kernel
  apply PrefixFree.of_labels
  intro p q h
  exact hall p p.mem_all q q.mem_all h

/-- The fields a purpose covers. -/
def Purpose.Fields : Purpose → Type
  | .clientTag => UInt16 × UInt16 × UInt8 × UInt64 × Octets 32
  | .serverTag => UInt16 × UInt16 × UInt8 × UInt64 × Octets 32 × Octets 32
  | .sessionKey _ => HandshakeContext
  | .binder => UInt64 × UInt64 × Octets 24 × Bytes
  | .resumptionKey _ => UInt64 × Octets 24
  | .ticketMac => Bytes
  | .legacyPublic => Unit
  | .legacyShared => Unit

/-- The purpose of a call with its label, and the fields it covers. -/
def PrfCall.covers : PrfCall → Sigma Purpose.Fields
  | clientTag protocolVersion capabilities cipherSuite sessionId clientPublic =>
    ⟨.clientTag, protocolVersion, capabilities, cipherSuite, sessionId, clientPublic⟩
  | serverTag protocolVersion capabilities cipherSuite sessionId clientPublic serverPublic =>
    ⟨.serverTag, protocolVersion, capabilities, cipherSuite, sessionId, clientPublic, serverPublic⟩
  | sessionKey label _ context => ⟨.sessionKey label, context⟩
  | binder _ sessionId ticketIdentity expiresAt clientNonce =>
    ⟨.binder, sessionId, expiresAt, clientNonce, ticketIdentity⟩
  | resumptionKey label _ sessionId clientNonce => ⟨.resumptionKey label, sessionId, clientNonce⟩
  | ticketMac _ plaintext _ => ⟨.ticketMac, plaintext⟩
  | legacyPublic _ => ⟨.legacyPublic, ()⟩
  | legacyShared _ _ => ⟨.legacyShared, ()⟩

/-- What follows the domain and the label in a hello or a transcript. -/
def helloBytes (protocolVersion capabilities : UInt16) (cipherSuite : UInt8) (sessionId : UInt64)
    (keys : Bytes) : Bytes :=
  le16 protocolVersion ++ (le16 capabilities ++ (cipherSuite :: (le64 sessionId ++ keys)))

theorem helloBytes_inj {v v' c c' : UInt16} {s s' : UInt8} {i i' : UInt64} {ks ks' : Bytes}
    (h : helloBytes v c s i ks = helloBytes v' c' s' i' ks') :
    v = v' ∧ c = c' ∧ s = s' ∧ i = i' ∧ ks = ks' := by
  obtain ⟨hv, h⟩ := prefixFree_le16 h
  obtain ⟨hc, h⟩ := prefixFree_le16 h
  obtain ⟨hs, h⟩ := List.cons.inj h
  obtain ⟨hi, h⟩ := prefixFree_le64 h
  exact ⟨hv, hc, hs, hi, h⟩

/-- How the covered fields are laid out behind the head. -/
def Purpose.tail : (p : Purpose) → p.Fields → Bytes
  | .clientTag, (version, caps, suite, sid, client) => helloBytes version caps suite sid client
  | .serverTag, (version, caps, suite, sid, client, server) =>
    helloBytes version caps suite sid (client.val ++ server.val)
  | .sessionKey _, cx => helloBytes cx.protocolVersion cx.capabilities cx.cipherSuite cx.sessionId
      (cx.clientPublic.val ++ cx.serverPublic.val)
  | .binder, (sid, expiresAt, nonce, identity) =>
    le64 sid ++ (le64 expiresAt ++ (nonce.val ++ identity))
  | .resumptionKey _, (sid, nonce) => le64 sid ++ nonce.val
  | .ticketMac, plaintext => plaintext
  | .legacyPublic, () => []
  | .legacyShared, () => []

theorem Purpose.tail_injective (p : Purpose) : Function.Injective p.tail := by
  cases p with
  | clientTag =>
    rintro ⟨v, c, s, i, k⟩ ⟨v', c', s', i', k'⟩ h
    obtain ⟨rfl, rfl, rfl, rfl, hk⟩ := helloBytes_inj h
    obtain rfl := Subtype.ext hk
    rfl
  | serverTag =>
    rintro ⟨v, c, s, i, k, l⟩ ⟨v', c', s', i', k', l'⟩ h
    obtain ⟨rfl, rfl, rfl, rfl, hkeys⟩ := helloBytes_inj h
    obtain ⟨rfl, hl⟩ := prefixFree_octets 32 hkeys
    obtain rfl := Subtype.ext hl
    rfl
  | sessionKey label =>
    rintro ⟨v, c, s, i, k, l⟩ ⟨v', c', s', i', k', l'⟩ h
    obtain ⟨rfl, rfl, rfl, rfl, hkeys⟩ := helloBytes_inj h
    obtain ⟨rfl, hl⟩ := prefixFree_octets 32 hkeys
    obtain rfl := Subtype.ext hl
    rfl
  | binder =>
    rintro ⟨i, e, n, t⟩ ⟨i', e', n', t'⟩ h
    obtain ⟨rfl, he⟩ := prefixFree_le64 h
    obtain ⟨rfl, hn⟩ := prefixFree_le64 he
    obtain ⟨rfl, ht⟩ := prefixFree_octets 24 hn
    rw [ht]
  | resumptionKey label =>
    rintro ⟨i, n⟩ ⟨i', n'⟩ h
    obtain ⟨rfl, hn⟩ := prefixFree_le64 h
    obtain rfl := Subtype.ext hn
    rfl
  | ticketMac => exact fun _ _ h => h
  | legacyPublic => exact fun _ _ _ => rfl
  | legacyShared => exact fun _ _ _ => rfl

theorem PrfCall.aad_eq (c : PrfCall) : c.aad = c.covers.1.head ++ c.covers.1.tail c.covers.2 := by
  cases c with
  | legacyPublic secret => exact (List.append_nil _).symm
  | legacyShared secret peer => exact (List.append_nil _).symm
  | ticketMac key plaintext nonce => rfl
  | _ => exact (List.append_assoc _ _ _).symm

theorem PrfCall.covers_of_aad {c d : PrfCall} (h : c.aad = d.aad) : c.covers = d.covers := by
  rw [c.aad_eq, d.aad_eq] at h
  exact prefixFree_head.tagged Purpose.tail_injective h

/-- `pseudo_prf` asks the hasher for nothing but these bytes. -/
theorem PrfInput.pseudoPrf_eq (hash : Bytes → UInt64) (x : PrfInput) (outLen : Nat) :
    (pseudoPrf hash x.material.val x.aad.val x.nonce.val outLen).val =
      prfBytes (hash x.stream) 0 outLen := rfl

/-- Every use of the handshake's hash is a call of `pseudo_prf` by its purpose. Two
calls build the same `aad` only if they serve the same purpose under the same label
and agree on every field it covers; and the bytes such a call gives the hasher are
the same only for the same material, `aad` and nonce. -/
theorem key_schedule_separated :
    (∀ hash : Bytes → UInt64, MakesNamedCalls hash) ∧
    (∀ c d : PrfCall, c.aad = d.aad → c.covers = d.covers) ∧
    (∀ (hash : Bytes → UInt64) (x : PrfInput) (outLen : Nat),
      (pseudoPrf hash x.material.val x.aad.val x.nonce.val outLen).val =
        prfBytes (hash x.stream) 0 outLen) ∧
    (∀ x y : PrfInput, x.stream = y.stream → x = y) := by
  refine ⟨calls_named, ?_, PrfInput.pseudoPrf_eq, PrfInput.stream_injective⟩
  intro c d h
  exact PrfCall.covers_of_aad h

/-- The call a client makes to check a server hello. -/
def HandshakePacket.serverCall (p : HandshakePacket) (clientPublic : Octets 32) : PrfCall :=
  .serverTag p.protocolVersion p.capabilities p.cipherSuite p.sessionId clientPublic p.publicKey

theorem HandshakePacket.verifyServer_eq (hash : Bytes → UInt64) (p : HandshakePacket)
    (clientPublic : Octets 32) : p.verifyServer hash clientPublic =
      (p.acceptable && constantTimeEq ((p.serverCall clientPublic).answer hash tagSize)
        p.authTag) := rfl

/-- The triple that `pseudo_prf` is called with. -/
def PrfCall.triple (c : PrfCall) : Bytes × Bytes × Bytes := (c.material, c.nonce, c.aad)

/-- A client checks the tag of one triple, and this is the same for two server hellos
exactly when they differ in nothing but the tag and the ticket. -/
theorem server_hello_bound (p q : HandshakePacket) (clientPublic : Octets 32) :
    (∀ hash, p.verifyServer hash clientPublic =
      (p.acceptable && constantTimeEq ((p.serverCall clientPublic).answer hash tagSize)
        p.authTag)) ∧
    ((p.serverCall clientPublic).triple = (q.serverCall clientPublic).triple ↔
      { p with authTag := q.authTag, sessionTicket := q.sessionTicket } = q) := by
  refine ⟨fun hash => p.verifyServer_eq hash clientPublic, fun h => ?_, fun h => ?_⟩
  · have haad : (p.serverCall clientPublic).aad = (q.serverCall clientPublic).aad :=
      congrArg (fun t => t.2.2) h
    have hcovers := PrfCall.covers_of_aad haad
    obtain ⟨version, caps, suite, sid, key, tag, ticket⟩ := p
    obtain ⟨version', caps', suite', sid', key', tag', ticket'⟩ := q
    cases hcovers
    rfl
  · rw [← h]
    rfl

/-- A server hello that lost its ticket on the way is accepted as before. -/
theorem ticket_not_bound :
    ¬ ∀ (p q : HandshakePacket) (clientPublic : Octets 32),
      p.verifyServer DefaultHasher.hash clientPublic = true →
      q.verifyServer DefaultHasher.hash clientPublic = true →
      (p.serverCall clientPublic).triple = (q.serverCall clientPublic).triple →
      { p with authTag := q.authTag } = q := by
  intro h
  have hsame := h (.newServer DefaultHasher.hash 7 (.fill 32 1) (.fill 32 2) none)
    (.newServer DefaultHasher.hash 7 (.fill 32 1) (.fill 32 2) (some ⟨[5], .fill 32 3, 60⟩))
    (.fill 32 2) (by decide +kernel) (by decide +kernel) rfl
  have hticket := congrArg HandshakePacket.sessionTicket hsame
  cases hticket

end Sankaku
