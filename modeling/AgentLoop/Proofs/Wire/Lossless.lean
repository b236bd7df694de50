/-
AgentLoop.Proofs.Wire.Lossless — everything but messages, on the wire and back.

* `lossless_on_the_wire` — calls, results, failures, replies, errors, outcomes
  and settings come back as they were sent, and what was received can be sent on
* `replies_and_settings_sent_on` — a reply that was written loosely, a call that
  is as deep as it may be, and settings that leave most of it out
-/
import AgentLoop.Proofs.Wire.Results
import AgentLoop.Proofs.Wire.Settings
import AgentLoop.Proofs.Wire.Turns

namespace AgentLoop

open Json (Lossless decode nesting)

/-- What is sent comes back: calls and results whose free values a text can
stand for, failures of tools, replies with counts of 32 bits, failures of
backends, reasons and outcomes of turns, and settings that the loop can run
with. What was received, valid or not, is read back from its own text. -/
theorem lossless_on_the_wire :
    Lossless ToolCallRequest.toJson ToolCallRequest.reader ToolCallRequest.WellFormed ∧
    Lossless ToolCallResult.toJson ToolCallResult.reader ToolCallResult.WellFormed ∧
    Lossless ToolFailure.toJson ToolFailure.reader (fun _ => True) ∧
    Lossless ProviderReply.toJson ProviderReply.reader ProviderReply.WellFormed ∧
    Lossless ProviderError.toJson ProviderError.reader (fun _ => True) ∧
    Lossless TurnErrorKind.toJson (TurnErrorKind.reader false) (fun _ => True) ∧
    Lossless TurnOutcome.toJson TurnOutcome.reader (fun _ => True) ∧
    Lossless Settings.toJson Settings.reader (fun c => c.InRange ∧ c.validate = .ok ()) := by
  have hsettings : ∀ c : Settings, c.InRange ∧ c.validate = .ok () →
      c.InRange ∧ c.retry.multiplier.isFinite = true :=
    fun c h => ⟨h.1, Settings.isFinite_of_validate h.2⟩
  refine ⟨?_, ?_, ?_, ?_, ?_, ?_, ?_, ?_⟩
  · exact ToolCallRequest.faithful.lossless (by decide)
  · exact ToolCallResult.faithful.lossless (by decide)
  · exact ToolFailure.faithful.lossless (by decide)
  · exact ProviderReply.faithful.lossless (by decide)
  · exact ProviderError.faithful.lossless (by decide)
  · exact (TurnErrorKind.faithful false).lossless (by decide)
  · exact TurnOutcome.faithful.lossless (by decide)
  · exact (Settings.faithful.lossless (by decide)).of_fit hsettings

/-- A batch with two calls, one written as an array and without its arguments,
the other with its members and keys out of order. -/
def looseReply : String :=
  "\x7b\"calls\": [[\"c1\", \"now\"], \x7b\"arguments\": \x7b\"b\": -0.0, \"a\": 7\x7d,
  \"tool_name\": \"look\", \"call_id\": \"c2\"\x7d], \"type\": \"tool_call_batch\"\x7d"

/-- The text of that batch. -/
def tightReply : String :=
  "\x7b\"type\":\"tool_call_batch\",\"calls\":[" ++
    "\x7b\"call_id\":\"c1\",\"tool_name\":\"now\",\"arguments\":null\x7d," ++
    "\x7b\"call_id\":\"c2\",\"tool_name\":\"look\"," ++
    "\"arguments\":\x7b\"a\":7,\"b\":-0.0\x7d\x7d],\"done\":false\x7d"

/-- A call whose arguments are 126 arrays inside each other. -/
def deepRequest : ToolCallRequest := ⟨⟨"d1", by decide⟩, "dig", Message.nested 126⟩

/-- Settings with a wait between repetitions that grows by a quarter. -/
def patientSettings : Settings :=
  { retry := { multiplier := (Number.readBinary? Number.binary64 "1.25").getD .nan }
    toolTimeoutMs := some Number.max64
    systemPrompt := some "Be brief." }

/-- A reply is sent on that was written loosely, a call comes back that is as
deep as it may be, and so do settings. -/
theorem replies_and_settings_sent_on :
    (∃ r, decode ProviderReply.reader looseReply = .ok r ∧ r.toJson.print = tightReply ∧
      decode ProviderReply.reader tightReply = .ok r) ∧
    decode ToolCallRequest.reader deepRequest.toJson.print = .ok deepRequest ∧
    decode Settings.reader patientSettings.toJson.print = .ok patientSettings := by
  obtain ⟨hrequest, -, -, hreply, -, -, -, hsettings⟩ := lossless_on_the_wire
  refine ⟨?_, ?_, ?_⟩
  · have hloose : ((decode ProviderReply.reader looseReply).map
        fun r => r.toJson.print).toOption = some tightReply := by decide +kernel
    cases hr : decode ProviderReply.reader looseReply with
    | error e =>
      rw [hr] at hloose
      cases hloose
    | ok r =>
      rw [hr] at hloose
      have htext : r.toJson.print = tightReply := Option.some.inj hloose
      have hback := hreply.received looseReply r hr
      rw [htext] at hback
      exact ⟨r, rfl, htext, hback⟩
  · have hwell : deepRequest.WellFormed := by
      change (Message.nested 126).wellFormed = true
      decide +kernel
    have hnesting : nesting deepRequest.toJson.print ≤ 127 := by
      rw [Json.nesting_print (ToolCallRequest.faithful.legible deepRequest hwell)]
      decide +kernel
    exact (hrequest.sent deepRequest hwell hnesting).1
  · have hrange : patientSettings.InRange :=
      ⟨by decide, ⟨by decide, by decide, by decide⟩, by decide, by simp [patientSettings],
        by simp [patientSettings]⟩
    have hvalid : patientSettings.validate = .ok () := by
      have hok : patientSettings.validate.toOption = some () := by decide +kernel
      cases hv : patientSettings.validate with
      | error e =>
        rw [hv] at hok
        cases hok
      | ok u => rfl
    have hlegible := Settings.faithful.legible patientSettings
      ⟨hrange, Settings.isFinite_of_validate hvalid⟩
    have hnesting : nesting patientSettings.toJson.print ≤ 127 := by
      rw [Json.nesting_print hlegible, Settings.depth_toJson]
      decide
    exact (hsettings.sent patientSettings ⟨hrange, hvalid⟩ hnesting).1

end AgentLoop
