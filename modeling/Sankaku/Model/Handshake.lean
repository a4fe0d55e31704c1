import Sankaku.Model.Bincode

namespace Sankaku
open LittleEndian

def protocolVersion : UInt16 := 2
def protocolBaselineCaps : UInt16 := 0x0001
def protocolCapResumption : UInt16 := 0x0002
def cipherSuiteDefault : UInt8 := 0x01
def handshakeDomain : Bytes := ascii "sankaku/handshake/v2"
def ticketDomain : Bytes := ascii "sankaku/ticket/v1"
def resumeDomain : Bytes := ascii "sankaku/resume/v1"
def tagSize : Nat := 16
def tagLabelClient : UInt8 := 0x43
def tagLabelServer : UInt8 := 0x53

inductive HandshakeRole
  | client
  | server
  deriving DecidableEq, Repr

structure HandshakeContext where
  protocolVersion : UInt16
  capabilities : UInt16
  cipherSuite : UInt8
  sessionId : UInt64
  clientPublic : Octets 32
  serverPublic : Octets 32
  deriving DecidableEq

structure SessionKeys where
  payloadTx : Octets 32
  payloadRx : Octets 32
  headerTx : Octets 32
  headerRx : Octets 32
  deriving DecidableEq

/-- `identity` is an opaque server-encrypted blob. -/
structure SessionTicket where
  identity : Bytes
  resumptionSecret : Octets 32
  expiresAt : UInt64
  deriving DecidableEq

structure ResumePacket where
  protocolVersion : UInt16
  sessionId : UInt64
  ticketIdentity : Bytes
  expiresAt : UInt64
  clientNonce : Octets 24
  binder : Octets tagSize
  deriving DecidableEq

structure ValidatedTicket where
  ticketId : Octets 16
  clientId : Octets 16
  resumptionSecret : Octets 32
  expiresAt : UInt64
  deriving DecidableEq

structure TicketIdentityFields where
  protocolVersion : UInt16
  ticketId : Octets 16
  clientId : Octets 16
  expiresAt : UInt64
  resumptionSecret : Octets 32
  deriving DecidableEq

structure HandshakePacket where
  protocolVersion : UInt16
  capabilities : UInt16
  cipherSuite : UInt8
  sessionId : UInt64
  publicKey : Octets 32
  authTag : Octets tagSize
  sessionTicket : Option SessionTicket
  deriving DecidableEq

def isSupportedCipherSuite (cipherSuite : UInt8) : Bool := cipherSuite == cipherSuiteDefault

/-- The differences of all bytes, joined before the one test. -/
def constantTimeEq (left right : Octets tagSize) : Bool :=
  (List.zipWith (· ^^^ ·) left.val right.val).foldl (· ||| ·) 0 == 0

theorem foldl_or_eq_zero (bytes : Bytes) (start : UInt8) :
    bytes.foldl (· ||| ·) start = 0 ↔ start = 0 ∧ ∀ b ∈ bytes, b = 0 := by
  induction bytes generalizing start with
  | nil => simp
  | cons b bytes ih =>
    rw [List.foldl_cons, ih, UInt8.or_eq_zero_iff, List.forall_mem_cons, and_assoc]

theorem zipWith_xor_eq_zero {left right : Bytes} (h : left.length = right.length) :
    (∀ b ∈ List.zipWith (· ^^^ ·) left right, b = 0) ↔ left = right := by
  induction left generalizing right with
  | nil =>
    cases right with
    | nil => simp
    | cons r right => cases h
  | cons l left ih =>
    cases right with
    | nil => cases h
    | cons r right =>
      have hlen : left.length = right.length := Nat.succ.inj h
      rw [List.zipWith_cons_cons, List.forall_mem_cons, UInt8.xor_eq_zero_iff, ih hlen,
        List.cons.injEq]

/-- Looking at every byte finds out what comparing would. -/
@[simp] theorem constantTimeEq_iff (left right : Octets tagSize) :
    constantTimeEq left right = true ↔ left = right := by
  have hlen : left.val.length = right.val.length := by rw [left.property, right.property]
  rw [constantTimeEq, beq_iff_eq, foldl_or_eq_zero, zipWith_xor_eq_zero hlen, Subtype.ext_iff]
  simp

/-- What `<[u8] as Hash>::hash` writes to the hasher: the length, then the bytes. -/
def hashSlice (slice : Bytes) : Bytes := toLE 8 slice.length ++ slice

def prfState (state : UInt64) (idx : Nat) : UInt64 :=
  let state := state ^^^ ((UInt64.ofNat idx + 1) * 0x9E3779B97F4A7C15)
  let state := rotateLeft64 state 17 ^^^ 0xA0761D6478BD642F
  state * 0x94D049BB133111EB

/-- The output loop from index `idx` on. -/
def prfBytes (state : UInt64) (idx : Nat) : Nat → Bytes
  | 0 => []
  | count + 1 =>
    let state := prfState state idx
    (state >>> UInt64.ofNat (idx % 8 * 8)).toUInt8 :: prfBytes state (idx + 1) count

@[simp] theorem prfBytes_length (state : UInt64) (idx count : Nat) :
    (prfBytes state idx count).length = count := by
  induction count generalizing state idx with
  | zero => rfl
  | succ count ih => simp [prfBytes, ih]

section Prf
variable (hash : Bytes → UInt64)

/-- The 64-bit hash is a parameter. The vector has the length asked for, so that
`copy_from_slice` into an array of that length succeeds. -/
def pseudoPrf (material aad nonce : Bytes) (outLen : Nat) : Octets outLen :=
  ⟨prfBytes (hash (hashSlice material ++ (hashSlice aad ++ hashSlice nonce))) 0 outLen,
    prfBytes_length _ _ _⟩

@[ext]
structure StaticSecret where
  bytes : Octets 32
  deriving DecidableEq

structure PublicKey where
  bytes : Octets 32
  deriving DecidableEq

structure SharedSecret where
  bytes : Octets 32
  deriving DecidableEq

/-- The two keys of `diffie_hellman`, the smaller first. -/
def StaticSecret.material (self : StaticSecret) (peer : PublicKey) : Bytes :=
  if self.bytes.val ≤ peer.bytes.val then self.bytes.val ++ peer.bytes.val
  else peer.bytes.val ++ self.bytes.val

def StaticSecret.diffieHellman (self : StaticSecret) (peer : PublicKey) : SharedSecret :=
  ⟨pseudoPrf hash (self.material peer) (ascii "sankaku/legacy-kx/shared/v1") (ascii "legacy-kx") 32⟩

def PublicKey.ofSecret (secret : StaticSecret) : PublicKey :=
  ⟨pseudoPrf hash secret.bytes (ascii "sankaku/legacy-kx/public/v1") (ascii "legacy-public") 32⟩

/-- A key pair is only made from its secret. -/
structure KeyExchange where
  secret : StaticSecret
  publicKey : PublicKey
  derived : publicKey = PublicKey.ofSecret hash secret

def KeyExchange.new (secret : StaticSecret) : KeyExchange hash :=
  ⟨secret, PublicKey.ofSecret hash secret, rfl⟩

variable {hash} in
def KeyExchange.deriveSharedSecret (self : KeyExchange hash) (peerPublicBytes : Octets 32) :
    Octets 32 :=
  (self.secret.diffieHellman hash ⟨peerPublicBytes⟩).bytes

def buildNonce (label : UInt8) (protocolVersion capabilities : UInt16) (sessionId : UInt64) :
    Octets 12 :=
  ⟨label :: (le64 sessionId ++ (le16 protocolVersion ++
    [capabilities.toUInt8 ^^^ (capabilities >>> 8).toUInt8])), by simp⟩

def buildResumptionNonce (label : UInt8) (sessionId : UInt64) (clientNonce : Octets 24) :
    Octets 12 :=
  ⟨label :: (le64 sessionId ++ clientNonce.val.take 3), by simp [clientNonce.property]⟩

/-- The fields of a hello or a transcript behind the domain and a label. -/
def handshakeAad (label : Bytes) (protocolVersion capabilities : UInt16) (cipherSuite : UInt8)
    (sessionId : UInt64) (keys : Bytes) : Bytes :=
  handshakeDomain ++ (label ++ (le16 protocolVersion ++ (le16 capabilities ++
    (cipherSuite :: (le64 sessionId ++ keys)))))

def buildClientTagAad (protocolVersion capabilities : UInt16) (cipherSuite : UInt8)
    (sessionId : UInt64) (clientPublic : Octets 32) : Bytes :=
  handshakeAad (ascii "/client") protocolVersion capabilities cipherSuite sessionId clientPublic

def buildServerTagAad (protocolVersion capabilities : UInt16) (cipherSuite : UInt8)
    (sessionId : UInt64) (clientPublic serverPublic : Octets 32) : Bytes :=
  handshakeAad (ascii "/server") protocolVersion capabilities cipherSuite sessionId
    (clientPublic.val ++ serverPublic.val)

def transcriptAad (context : HandshakeContext) (label : Bytes) : Bytes :=
  handshakeAad label context.protocolVersion context.capabilities context.cipherSuite
    context.sessionId (context.clientPublic.val ++ context.serverPublic.val)

def computeTag (material : Octets 32) (nonce : Octets 12) (aad : Bytes) : Octets tagSize :=
  pseudoPrf hash material aad nonce tagSize

def computeClientTag (protocolVersion capabilities : UInt16) (cipherSuite : UInt8)
    (sessionId : UInt64) (clientPublic : Octets 32) : Octets tagSize :=
  computeTag hash clientPublic (buildNonce tagLabelClient protocolVersion capabilities sessionId)
    (buildClientTagAad protocolVersion capabilities cipherSuite sessionId clientPublic)

def serverTagMaterial (clientPublic serverPublic : Octets 32) : Octets 32 :=
  ⟨List.zipWith (· ^^^ ·) clientPublic.val serverPublic.val,
    by simp [clientPublic.property, serverPublic.property]⟩

def computeServerTag (protocolVersion capabilities : UInt16) (cipherSuite : UInt8)
    (sessionId : UInt64) (clientPublic serverPublic : Octets 32) : Octets tagSize :=
  computeTag hash (serverTagMaterial clientPublic serverPublic)
    (buildNonce tagLabelServer protocolVersion capabilities sessionId)
    (buildServerTagAad protocolVersion capabilities cipherSuite sessionId clientPublic serverPublic)

def deriveKeyMaterial (sharedSecret : Octets 32) (context : HandshakeContext) (nonceLabel : UInt8)
    (label : Bytes) : Octets 32 :=
  pseudoPrf hash sharedSecret (transcriptAad context label)
    (buildNonce nonceLabel context.protocolVersion context.capabilities context.sessionId) 32

/-- Which key is for sending and which for receiving. -/
def SessionKeys.forRole (role : HandshakeRole)
    (payloadC2s payloadS2c headerC2s headerS2c : Octets 32) : SessionKeys :=
  match role with
  | .client => ⟨payloadC2s, payloadS2c, headerC2s, headerS2c⟩
  | .server => ⟨payloadS2c, payloadC2s, headerS2c, headerC2s⟩

def deriveSessionKeys (sharedSecret : Octets 32) (role : HandshakeRole)
    (context : HandshakeContext) : SessionKeys :=
  .forRole role
    (deriveKeyMaterial hash sharedSecret context 0xA1 (ascii "/payload/c2s"))
    (deriveKeyMaterial hash sharedSecret context 0xA2 (ascii "/payload/s2c"))
    (deriveKeyMaterial hash sharedSecret context 0xB1 (ascii "/header/c2s"))
    (deriveKeyMaterial hash sharedSecret context 0xB2 (ascii "/header/s2c"))

def HandshakePacket.newClient (sessionId : UInt64) (publicKey : Octets 32) : HandshakePacket :=
  let capabilities := protocolBaselineCaps ||| protocolCapResumption
  { protocolVersion := Sankaku.protocolVersion
    capabilities
    cipherSuite := cipherSuiteDefault
    sessionId
    publicKey
    authTag := computeClientTag hash Sankaku.protocolVersion capabilities cipherSuiteDefault
      sessionId publicKey
    sessionTicket := none }

def HandshakePacket.newServer (sessionId : UInt64) (serverPublic clientPublic : Octets 32)
    (sessionTicket : Option SessionTicket) : HandshakePacket :=
  let capabilities := protocolBaselineCaps ||| protocolCapResumption
  { protocolVersion := Sankaku.protocolVersion
    capabilities
    cipherSuite := cipherSuiteDefault
    sessionId
    publicKey := serverPublic
    authTag := computeServerTag hash Sankaku.protocolVersion capabilities cipherSuiteDefault
      sessionId clientPublic serverPublic
    sessionTicket }

/-- The version, capability and cipher-suite checks both sides make first. -/
def HandshakePacket.acceptable (p : HandshakePacket) : Bool :=
  p.protocolVersion == Sankaku.protocolVersion && p.capabilities &&& protocolBaselineCaps != 0 &&
    isSupportedCipherSuite p.cipherSuite

def HandshakePacket.verifyClient (p : HandshakePacket) : Bool :=
  p.acceptable && constantTimeEq
    (computeClientTag hash p.protocolVersion p.capabilities p.cipherSuite p.sessionId p.publicKey)
    p.authTag

def HandshakePacket.verifyServer (p : HandshakePacket) (clientPublic : Octets 32) : Bool :=
  p.acceptable && constantTimeEq
    (computeServerTag hash p.protocolVersion p.capabilities p.cipherSuite p.sessionId clientPublic
      p.publicKey)
    p.authTag

def resumptionBinderAad (sessionId : UInt64) (ticketIdentity : Bytes) (expiresAt : UInt64)
    (clientNonce : Octets 24) : Bytes :=
  resumeDomain ++ (ascii "/binder" ++ (le64 sessionId ++ (le64 expiresAt ++
    (clientNonce.val ++ ticketIdentity))))

def computeResumptionBinder (resumptionSecret : Octets 32) (sessionId : UInt64)
    (ticketIdentity : Bytes) (expiresAt : UInt64) (clientNonce : Octets 24) : Octets tagSize :=
  pseudoPrf hash resumptionSecret
    (resumptionBinderAad sessionId ticketIdentity expiresAt clientNonce)
    (buildResumptionNonce 0xD1 sessionId clientNonce) tagSize

def resumptionKeyAad (label : Bytes) (sessionId : UInt64) (clientNonce : Octets 24) : Bytes :=
  resumeDomain ++ (label ++ (le64 sessionId ++ clientNonce.val))

def deriveResumptionKeyMaterial (resumptionSecret : Octets 32) (sessionId : UInt64)
    (clientNonce : Octets 24) (nonceLabel : UInt8) (label : Bytes) : Octets 32 :=
  pseudoPrf hash resumptionSecret (resumptionKeyAad label sessionId clientNonce)
    (buildResumptionNonce nonceLabel sessionId clientNonce) 32

def deriveResumptionSessionKeys (resumptionSecret : Octets 32) (role : HandshakeRole)
    (sessionId : UInt64) (clientNonce : Octets 24) : SessionKeys :=
  .forRole role
    (deriveResumptionKeyMaterial hash resumptionSecret sessionId clientNonce 0xC1
      (ascii "/payload/c2s"))
    (deriveResumptionKeyMaterial hash resumptionSecret sessionId clientNonce 0xC2
      (ascii "/payload/s2c"))
    (deriveResumptionKeyMaterial hash resumptionSecret sessionId clientNonce 0xD1
      (ascii "/header/c2s"))
    (deriveResumptionKeyMaterial hash resumptionSecret sessionId clientNonce 0xD2
      (ascii "/header/s2c"))

/-- The nonce is drawn from `OsRng`. -/
def ResumePacket.newClient (sessionId : UInt64) (ticket : SessionTicket)
    (clientNonce : Octets 24) : ResumePacket where
  protocolVersion := Sankaku.protocolVersion
  sessionId := sessionId
  ticketIdentity := ticket.identity
  expiresAt := ticket.expiresAt
  clientNonce := clientNonce
  binder := computeResumptionBinder hash ticket.resumptionSecret sessionId ticket.identity
    ticket.expiresAt clientNonce

def ResumePacket.verify (p : ResumePacket) (resumptionSecret : Octets 32) (nowSecs : UInt64) :
    Bool :=
  if p.protocolVersion ≠ Sankaku.protocolVersion then false
  else if p.expiresAt < nowSecs then false
  else
    constantTimeEq
      (computeResumptionBinder hash resumptionSecret p.sessionId p.ticketIdentity p.expiresAt
        p.clientNonce)
      p.binder

def TicketIdentityFields.serialize (t : TicketIdentityFields) : Bytes :=
  le16 t.protocolVersion ++ (t.ticketId.val ++ (t.clientId.val ++ (le64 t.expiresAt ++
    t.resumptionSecret.val)))

def TicketIdentityFields.deserialize (bs : Bytes) : Option TicketIdentityFields := do
  let (protocolVersion, bs) ← readU16 bs
  let (ticketId, bs) ← readOctets 16 bs
  let (clientId, bs) ← readOctets 16 bs
  let (expiresAt, bs) ← readU64 bs
  let (resumptionSecret, _) ← readOctets 32 bs
  return { protocolVersion, ticketId, clientId, expiresAt, resumptionSecret }

def SessionTicket.serialize (t : SessionTicket) : Bytes :=
  le64 (UInt64.ofNat t.identity.length) ++ (t.identity ++ (t.resumptionSecret.val ++
    le64 t.expiresAt))

def SessionTicket.deserialize (bs : Bytes) : Option SessionTicket := do
  let (identity, bs) ← readVec bs
  let (resumptionSecret, bs) ← readOctets 32 bs
  let (expiresAt, _) ← readU64 bs
  return { identity, resumptionSecret, expiresAt }

/-- What `issue_session_ticket` draws from `OsRng`, in order. -/
structure TicketDraws where
  resumptionSecret : Octets 32
  ticketId : Octets 16
  clientId : Octets 16
  nonceBytes : Octets 12

/-- The drawn secret, unless it is all zero. -/
def TicketDraws.secret (draws : TicketDraws) : Octets 32 :=
  if draws.resumptionSecret = Octets.fill 32 0 then
    ⟨draws.resumptionSecret.val.set 0 1, by rw [List.length_set, draws.resumptionSecret.property]⟩
  else draws.resumptionSecret

def ticketAad (plaintext : Bytes) : Bytes := ticketDomain ++ plaintext

def issueSessionTicket (ticketKey : Octets 32) (lifetimeSecs now : UInt64) (draws : TicketDraws) :
    Except String SessionTicket :=
  if lifetimeSecs = 0 then .error "ticket lifetime must be greater than zero"
  else
    let expiresAt := saturatingAdd64 now lifetimeSecs
    let resumptionSecret := draws.secret
    let fields : TicketIdentityFields :=
      { protocolVersion := Sankaku.protocolVersion
        ticketId := draws.ticketId
        clientId := draws.clientId
        expiresAt
        resumptionSecret }
    let plaintext := fields.serialize
    let mac := pseudoPrf hash ticketKey (ticketAad plaintext) draws.nonceBytes tagSize
    .ok { identity := draws.nonceBytes.val ++ (plaintext ++ mac.val), resumptionSecret, expiresAt }

/-- The checks on the fields once the MAC was found right, and the ids that
stand in for zero ones. -/
def TicketIdentityFields.validate (fields : TicketIdentityFields) (nowSecs : UInt64) :
    Option ValidatedTicket :=
  if fields.protocolVersion ≠ Sankaku.protocolVersion then none
  else if fields.expiresAt < nowSecs then none
  else
    let ticketId :=
      if fields.ticketId = Octets.fill 16 0 then
        ⟨fields.resumptionSecret.val.take 16, by simp [fields.resumptionSecret.property]⟩
      else fields.ticketId
    some
      { ticketId
        clientId := if fields.clientId = Octets.fill 16 0 then ticketId else fields.clientId
        resumptionSecret := fields.resumptionSecret
        expiresAt := fields.expiresAt }

def validateTicketIdentity (ticketKey : Octets 32) (identity : Bytes) (nowSecs : UInt64) :
    Option ValidatedTicket :=
  if identity.length ≤ 12 + tagSize then none
  else
    let nonceBytes := identity.take 12
    let payloadWithMac := identity.drop 12
    let plaintext := payloadWithMac.take (payloadWithMac.length - tagSize)
    let macBytes := payloadWithMac.drop (payloadWithMac.length - tagSize)
    let expected := pseudoPrf hash ticketKey (ticketAad plaintext) nonceBytes tagSize
    if h : macBytes.length = tagSize then
      if !constantTimeEq expected ⟨macBytes, h⟩ then none
      else (TicketIdentityFields.deserialize plaintext).bind (fun fields => fields.validate nowSecs)
    else none

end Prf

/-- `import_resumption_ticket` on the one field of the sender it touches. -/
def importResumptionTicket (held : Option SessionTicket) (blob : Bytes) :
    Except String Unit × Option SessionTicket :=
  match SessionTicket.deserialize blob with
  | some ticket => (.ok (), some ticket)
  | none => (.error "Failed to deserialize resumption ticket blob", held)

def exportResumptionTicket (held : Option SessionTicket) : Option Bytes :=
  held.map SessionTicket.serialize

end Sankaku
