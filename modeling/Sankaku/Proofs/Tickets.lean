import Sankaku.Proofs.KeyAgreement

namespace Sankaku
open LittleEndian

theorem TicketIdentityFields.round_trip (t : TicketIdentityFields) :
    deserialize t.serialize = some t := by
  have hsecret := readOctets_append t.resumptionSecret []
  rw [List.append_nil] at hsecret
  simp [serialize, deserialize, hsecret]

theorem TicketIdentityFields.serialize_length (t : TicketIdentityFields) :
    t.serialize.length = 74 := by
  have hticket := t.ticketId.property
  have hclient := t.clientId.property
  have hsecret := t.resumptionSecret.property
  simp only [serialize, List.length_append, le16_length, le64_length]
  omega

theorem SessionTicket.round_trip (t : SessionTicket) (h : t.identity.length < 2 ^ 64) :
    deserialize t.serialize = some t := by
  have hexpires := readU64_append t.expiresAt []
  rw [List.append_nil] at hexpires
  simp [serialize, deserialize, readVec_append _ _ h, hexpires]

section Life
variable (hash : Bytes → UInt64) (ticketKey : Octets 32)

/-- The fields of a ticket of this version are accepted until they expire. -/
theorem TicketIdentityFields.validate_version (fields : TicketIdentityFields)
    (version : fields.protocolVersion = Sankaku.protocolVersion) (t : UInt64) :
    (fields.expiresAt < t → fields.validate t = none) ∧
    (t ≤ fields.expiresAt → ∃ v, fields.validate t = some v ∧
      v.resumptionSecret = fields.resumptionSecret ∧ v.expiresAt = fields.expiresAt) := by
  unfold validate
  rw [if_neg (by simp [version])]
  constructor
  · intro h
    rw [if_pos h]
  · intro h
    rw [if_neg (UInt64.not_lt.mpr h)]
    exact ⟨_, rfl, rfl, rfl⟩

/-- A packet made from a ticket verifies under the ticket's secret until the
ticket expires, and under no secret after that. -/
theorem ResumePacket.newClient_verify (sessionId : UInt64) (ticket : SessionTicket)
    (clientNonce : Octets 24) (t : UInt64) :
    (t ≤ ticket.expiresAt → (newClient hash sessionId ticket clientNonce).verify hash
      ticket.resumptionSecret t = true) ∧
    (ticket.expiresAt < t → ∀ secret,
      (newClient hash sessionId ticket clientNonce).verify hash secret t = false) := by
  constructor
  · intro h
    have hlive : ¬ (newClient hash sessionId ticket clientNonce).expiresAt < t :=
      UInt64.not_lt.mpr h
    rw [verify, if_neg (fun hne => hne rfl), if_neg hlive]
    exact (constantTimeEq_iff _ _).mpr rfl
  · intro h secret
    have hexpired : (newClient hash sessionId ticket clientNonce).expiresAt < t := h
    rw [verify, if_neg (fun hne => hne rfl), if_pos hexpired]

/-- The ticket's identity holds these fields under the MAC, and the ticket tells the
client what they say. -/
structure Seals (ticket : SessionTicket) (fields : TicketIdentityFields) (nonceBytes : Octets 12) :
    Prop where
  identity : ticket.identity = nonceBytes.val ++ (fields.serialize ++
    (pseudoPrf hash ticketKey (ticketAad fields.serialize) nonceBytes tagSize).val)
  version : fields.protocolVersion = protocolVersion
  secret : ticket.resumptionSecret = fields.resumptionSecret
  expires : ticket.expiresAt = fields.expiresAt

theorem issue_seals (now : UInt64) (draws : TicketDraws) (lifetime : 0 < lifetimeSecs) :
    ∃ ticket fields, issueSessionTicket hash ticketKey lifetimeSecs now draws = .ok ticket ∧
      ticket.expiresAt = saturatingAdd64 now lifetimeSecs ∧
      Seals hash ticketKey ticket fields draws.nonceBytes := by
  have hpositive : lifetimeSecs ≠ 0 := by
    rintro rfl
    exact absurd lifetime (by decide)
  unfold issueSessionTicket
  rw [if_neg hpositive]
  exact ⟨_, _, rfl, rfl, rfl, rfl, rfl, rfl⟩

variable {hash ticketKey}

theorem Seals.short (h : Seals hash ticketKey ticket fields nonceBytes) :
    ticket.identity.length < 2 ^ 64 := by
  have hnonce := nonceBytes.property
  have hmac := (pseudoPrf hash ticketKey (ticketAad fields.serialize) nonceBytes tagSize).property
  rw [h.identity, List.length_append, List.length_append, hnonce, fields.serialize_length, hmac,
    tagSize]
  omega

/-- Under the key the identity was sealed with only its fields decide. -/
theorem Seals.validate (h : Seals hash ticketKey ticket fields nonceBytes) (t : UInt64) :
    validateTicketIdentity hash ticketKey ticket.identity t = fields.validate t := by
  have hsealed : fields.serialize ≠ [] := by
    intro hnil
    have hlength := fields.serialize_length
    rw [hnil] at hlength
    cases hlength
  rw [h.identity, validate_split hash ticketKey _ _ _ hsealed, if_pos rfl, fields.round_trip,
    Option.bind_some]

variable (hash ticketKey)

/-- Everything a ticket issued now is good for, and until when. -/
theorem ticket_life_cycle (lifetimeSecs now : UInt64) (draws : TicketDraws)
    (sessionId : UInt64) (clientNonce : Octets 24) (lifetime : 0 < lifetimeSecs) :
    ∃ ticket, issueSessionTicket hash ticketKey lifetimeSecs now draws = .ok ticket ∧
      ticket.expiresAt = saturatingAdd64 now lifetimeSecs ∧
      (∃ blob, exportResumptionTicket (some ticket) = some blob ∧
        ∀ held, importResumptionTicket held blob = (.ok (), some ticket)) ∧
      (∀ t ≤ ticket.expiresAt, ∃ v,
        validateTicketIdentity hash ticketKey ticket.identity t = some v ∧
        v.resumptionSecret = ticket.resumptionSecret ∧ v.expiresAt = ticket.expiresAt ∧
        (ResumePacket.newClient hash sessionId ticket clientNonce).verify hash
          v.resumptionSecret t = true ∧
        (deriveResumptionSessionKeys hash ticket.resumptionSecret .client sessionId
          clientNonce).Crosswise
          (deriveResumptionSessionKeys hash v.resumptionSecret .server sessionId clientNonce)) ∧
      (∀ t, ticket.expiresAt < t →
        validateTicketIdentity hash ticketKey ticket.identity t = none ∧
        ∀ secret, (ResumePacket.newClient hash sessionId ticket clientNonce).verify hash
          secret t = false) := by
  obtain ⟨ticket, fields, hissue, hexpires, hseals⟩ := issue_seals hash ticketKey now draws lifetime
  refine ⟨ticket, hissue, hexpires, ⟨_, rfl, fun held => ?_⟩, fun t ht => ?_, fun t ht => ?_⟩
  · rw [importResumptionTicket, ticket.round_trip hseals.short]
  · obtain ⟨v, hv, hvsecret, hvexpires⟩ :=
      (fields.validate_version hseals.version t).2 (hseals.expires ▸ ht)
    have hsame : v.resumptionSecret = ticket.resumptionSecret := hvsecret.trans hseals.secret.symm
    refine ⟨v, (hseals.validate t).trans hv, hsame, hvexpires.trans hseals.expires.symm, ?_, ?_⟩
    · rw [hsame]
      exact (ResumePacket.newClient_verify hash sessionId ticket clientNonce t).1 ht
    · rw [hsame]
      exact SessionKeys.forRole_crosswise _ _ _ _
  · refine ⟨?_, (ResumePacket.newClient_verify hash sessionId ticket clientNonce t).2 ht⟩
    rw [hseals.validate]
    exact (fields.validate_version hseals.version t).1 (hseals.expires ▸ ht)

end Life

/-- A ticket for a minute, issued at second 100: good at second 160, refused at
161. -/
theorem ticket_life_cycle_minute :
    ∃ ticket, issueSessionTicket DefaultHasher.hash (.fill 32 0x55) 60 100
        ⟨.fill 32 7, .fill 16 8, .fill 16 9, .fill 12 10⟩ = .ok ticket ∧
      (validateTicketIdentity DefaultHasher.hash (.fill 32 0x55) ticket.identity 160).isSome ∧
      validateTicketIdentity DefaultHasher.hash (.fill 32 0x55) ticket.identity 161 = none := by
  obtain ⟨ticket, hissue, hexpires, _, hgood, hdead⟩ := ticket_life_cycle DefaultHasher.hash
    (.fill 32 0x55) 60 100 ⟨.fill 32 7, .fill 16 8, .fill 16 9, .fill 12 10⟩ 5 (.fill 24 6)
    (by decide)
  have hat : ticket.expiresAt = 160 := hexpires.trans (by decide)
  rw [hat] at hgood hdead
  obtain ⟨v, hv, _⟩ := hgood 160 (by decide)
  exact ⟨ticket, hissue, by rw [hv]; rfl, (hdead 161 (by decide)).1⟩

end Sankaku
