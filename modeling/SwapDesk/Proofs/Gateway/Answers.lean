import SwapDesk.Proofs.Gateway.Replies

/-! What is made of each answer of the gateway. The status alone decides between rejection and
success, the body only tells the reason of the one and the reply of the other. -/
namespace SwapDesk

variable {α : Type} {decode : Decoder α} {body : List UInt8} {status : Nat} {c : Call} {x : α}
  {message : String}

namespace Response

/-- The text of the body is one JSON value and nothing else. -/
def Spells (body : List UInt8) (r : Reading) : Prop :=
  Reading.ofChars (decodeLossy body).toList = (r, true)

/-- Why a request was rejected. -/
inductive Reason (body : List UInt8) : String → Prop
  /-- The message of the body, or else its error. -/
  | told {r : Reading} {e : ErrorReply} {message : String} (hr : Spells body r) (he : e.Carried r)
      (hm : (e.message <|> e.error) = some message) : Reason body message
  /-- The whole body, if it tells neither. -/
  | whole (h : ∀ r e, Spells body r → ErrorReply.Carried r e → (e.message <|> e.error) = none) :
      Reason body (decodeLossy body)

theorem ofText_decodeLossy :
    Decoder.ofText decode (decodeLossy body) = .ok x ↔ ∃ r, Spells body r ∧ decode r = .ok x :=
  Decoder.ofText_eq_ok

theorem ofText_errorReply {e : ErrorReply} :
    Decoder.ofText ErrorReply.decoder (decodeLossy body) = .ok e ↔
      ∃ r, Spells body r ∧ ErrorReply.Carried r e :=
  ofText_decodeLossy.trans
    (exists_congr fun _ => and_congr_right fun _ => ErrorReply.decoder_eq_ok_iff)

/-- There is always one reason, and only one. -/
theorem reason_iff : Reason body message ↔ reason (decodeLossy body) = message := by
  rw [reason]
  cases h : Decoder.ofText ErrorReply.decoder (decodeLossy body) with
  | error f =>
    have hnone : ∀ r e, Spells body r → ¬ErrorReply.Carried r e := by
      intro r e hr he
      rw [ofText_errorReply.mpr ⟨r, hr, he⟩] at h
      cases h
    constructor
    · rintro (⟨hr, he, _⟩ | _)
      · exact absurd he (hnone _ _ hr)
      · rfl
    · rintro rfl
      exact .whole fun r e hr he => absurd he (hnone r e hr)
  | ok e =>
    have hsame : ∀ r e', Spells body r → ErrorReply.Carried r e' → e' = e := by
      intro r e' hr he
      rw [ofText_errorReply.mpr ⟨r, hr, he⟩] at h
      cases h
      rfl
    obtain ⟨r, hr, he⟩ := ofText_errorReply.mp h
    dsimp only
    cases hm : e.text? with
    | none =>
      constructor
      · rintro (⟨hr', he', hm'⟩ | _)
        · cases hsame _ _ hr' he'
          rw [ErrorReply.text?, hm'] at hm
          cases hm
        · rfl
      · rintro rfl
        exact .whole fun r' e' hr' he' => hsame r' e' hr' he' ▸ hm
    | some m =>
      constructor
      · rintro (⟨hr', he', hm'⟩ | hnone)
        · cases hsame _ _ hr' he'
          rw [ErrorReply.text?, hm'] at hm
          exact (Option.some.inj hm).symm
        · rw [ErrorReply.text?, hnone r e hr he] at hm
          cases hm
      · rintro rfl
        exact .told hr he hm

theorem decode_complete_of_not_success (h : ¬(200 ≤ status ∧ status < 300)) :
    (complete status body).decode decode =
      .error (.application status (reason (decodeLossy body))) := by
  simp only [Response.decode, isSuccess, Bool.and_eq_true, decide_eq_true_eq, h, if_false]

theorem decode_complete_of_success (h : 200 ≤ status ∧ status < 300) :
    (complete status body).decode decode =
      (Decoder.ofText decode (decodeLossy body)).mapError fun f => .malformed f.message := by
  simp [Response.decode, isSuccess, h]

theorem decode_complete_eq_ok (h : 200 ≤ status ∧ status < 300) {v : c.Reply} :
    (complete status body).decode c.decoder = .ok v ↔ ∃ r, Spells body r ∧ c.Carries r v := by
  have hmap : (complete status body).decode c.decoder = .ok v ↔
      Decoder.ofText c.decoder (decodeLossy body) = .ok v := by
    rw [decode_complete_of_success h]
    cases Decoder.ofText c.decoder (decodeLossy body) <;> simp [Except.mapError]
  rw [hmap, ofText_decodeLossy]
  exact exists_congr fun _ => and_congr_right fun _ => c.decoder_eq_ok_iff

/-- A success with a body that is no reply. -/
theorem malformed_of_error {f : Failure} (h : 200 ≤ status ∧ status < 300)
    (hf : (complete status body).decode decode = .error f) : ∃ text, f = .malformed text := by
  rw [decode_complete_of_success h] at hf
  cases hx : Decoder.ofText decode (decodeLossy body) with
  | error fault =>
    rw [hx] at hf
    cases hf
    exact ⟨_, rfl⟩
  | ok x =>
    rw [hx] at hf
    cases hf

/-- An answer with a body that did not come to its end is none. -/
theorem received_partly (h : isBare status = false) :
    ∃ text, received status body false = broken text := by
  unfold received
  cases isFinal status <;> simp [h]

/-- Whatever call was made, and whatever came back: if nothing complete arrived, it is a transport
failure; a status that is no success is a rejection with this status and with the reason that the
body tells, or else with the whole body; and a success gives the reply that the body carries, and is
malformed if it carries none. So nothing but a success gives a reply, and nothing but an incomplete
answer is a transport failure; all other failures are the application's. -/
theorem answer_decides_outcome (c : Call) :
    (∀ text, (broken text).decode c.decoder = .error (.transport text)) ∧
    (∀ status body, isBare status = false →
      ∃ text, (received status body false).decode c.decoder = .error (.transport text)) ∧
    (∀ status body, ¬(200 ≤ status ∧ status < 300) →
      ∃ message, (complete status body).decode c.decoder = .error (.application status message) ∧
        ∀ m, Reason body m ↔ m = message) ∧
    (∀ status body, 200 ≤ status ∧ status < 300 →
      (∀ v, (complete status body).decode c.decoder = .ok v ↔
        ∃ r, Spells body r ∧ c.Carries r v) ∧
      ((∀ r v, Spells body r → ¬c.Carries r v) →
        ∃ text, (complete status body).decode c.decoder = .error (.malformed text))) ∧
    (∀ answer v, answer.decode c.decoder = .ok v →
      ∃ status body, answer = complete status body ∧ 200 ≤ status ∧ status < 300) ∧
    (∀ answer f, answer.decode c.decoder = .error f →
      (f.isTransport = true ↔ ∃ text, answer = broken text)) ∧
    ∀ f : Failure, f.isTransport = true ↔ f.isApplication = false := by
  have hrejected : ∀ status body, ¬(200 ≤ status ∧ status < 300) →
      (complete status body).decode c.decoder =
        .error (.application status (reason (decodeLossy body))) := fun _ _ h =>
    decode_complete_of_not_success h
  refine ⟨fun _ => rfl, fun status body h => ?_, fun status body h => ?_, fun status body h => ?_,
    fun answer v hv => ?_, fun answer f hf => ?_, fun f => ?_⟩
  · obtain ⟨text, hbroken⟩ := received_partly h
    exact ⟨text, hbroken ▸ rfl⟩
  · exact ⟨_, hrejected status body h, fun m => reason_iff.trans eq_comm⟩
  · refine ⟨fun v => decode_complete_eq_ok h, fun hnone => ?_⟩
    cases hx : (complete status body).decode c.decoder with
    | error f =>
      obtain ⟨text, rfl⟩ := malformed_of_error h hx
      exact ⟨text, rfl⟩
    | ok v =>
      obtain ⟨r, hr, hv⟩ := (decode_complete_eq_ok h).mp hx
      exact absurd hv (hnone r v hr)
  · cases answer with
    | broken text => cases hv
    | complete status body =>
      by_cases h : 200 ≤ status ∧ status < 300
      · exact ⟨status, body, rfl, h⟩
      · rw [hrejected status body h] at hv
        cases hv
  · cases answer with
    | broken text =>
      cases hf
      exact iff_of_true rfl ⟨text, rfl⟩
    | complete status body =>
      refine iff_of_false ?_ (by simp)
      by_cases h : 200 ≤ status ∧ status < 300
      · obtain ⟨text, rfl⟩ := malformed_of_error h hf
        exact Bool.false_ne_true
      · rw [hrejected status body h] at hf
        cases hf
        exact Bool.false_ne_true
  · rw [Failure.isApplication, Bool.not_eq_false']

/-- A message that is null, beside an error. -/
def nullMessage : List UInt8 :=
  "\x7b\"message\":null,\"error\":\"no funds\"\x7d".toList.map fun c => UInt8.ofNat c.toNat

/-- The same body is the reason of a rejection and no reply to a swap, and half of it is nothing. -/
theorem null_message_leaves_error :
    (complete 422 nullMessage).decode Call.trade.decoder = .error (.application 422 "no funds") ∧
      (∃ text, (complete 200 nullMessage).decode Call.trade.decoder = .error (.malformed text)) ∧
      ∃ text, (received 200 (nullMessage.take 9) false).decode Call.trade.decoder =
        .error (.transport text) := by
  obtain ⟨_, hpartly, hrejected, hsuccess, _⟩ := answer_decides_outcome .trade
  have hspells : Spells nullMessage
      (.record [(some "message", .null), (some "error", .text (some "no funds"))] true) := rfl
  refine ⟨?_, (hsuccess 200 nullMessage (by decide)).2 fun r v hr hv => ?_, hpartly 200 _ rfl⟩
  · obtain ⟨message, hdecode, honly⟩ := hrejected 422 nullMessage (by decide)
    have htold : Reason nullMessage "no funds" :=
      .told hspells (ErrorReply.decoder_eq_ok_iff.mp rfl : ErrorReply.Carried _ ⟨none, _⟩) rfl
    rw [hdecode, (honly _).mp htold]
  · cases hspells.symm.trans hr
    have hreply := Call.trade.decoder_eq_ok_iff.mpr hv
    cases hreply

end Response
end SwapDesk
