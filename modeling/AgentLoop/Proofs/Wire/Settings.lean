/-
AgentLoop.Proofs.Wire.Settings — settings on the wire and back.

* `RetryPolicy.InRange`, `Settings.InRange` — counts of 32 and of 64 bits
* `real_faithful` — finite numbers of double precision
* `RetryPolicy.faithful`, `Settings.faithful` — settings with a finite multiplier
  are read as they were written, and what is read can be written
* `Settings.isFinite_of_validate` — the loop runs with no others

A multiplier that is not finite is written as null and cannot be read. Every
member has a default, so settings may be read off fewer brackets than they are
written with.
-/
import AgentLoop.Proofs.Json.Records
import AgentLoop.Proofs.Number.Rounding
import AgentLoop.Settings

namespace AgentLoop

open Json (Faithful Reads Reader)
open Number (Binary binary64 max32 max64)

attribute [local simp] Json.record Json.namedMembers Json.Member.of Json.Given.required
  Json.Given.withDefault Json.Node.fieldsWithin Bind.bind Except.bind Pure.pure Except.pure
  Except.map List.lookup_cons

namespace RetryPolicy

theorem depth_realJson (x : Binary binary64) : (realJson x).depth = 0 := by
  cases x <;> rfl

/-- A number is read off any number of 64 bits and any that is finite. -/
theorem real_faithful :
    Faithful realJson Reader.real (fun x => x.isFinite = true) 0 where
  legible x hx := by
    cases x with
    | finite y => exact Json.legible_float y
    | infinite s => cases hx
    | nan => cases hx
  reads x hx := by
    cases x with
    | finite y => exact fun _ _ => rfl
    | infinite s => cases hx
    | nan => cases hx
  sound := by
    intro room n x hn h
    refine ⟨?_, by rw [depth_realJson]; exact Nat.zero_le _⟩
    unfold Reader.real at h
    split at h
    · rename_i m
      obtain rfl := Except.ok.inj h
      cases hn with
      | number hwell hnumber =>
        -- a whole number of 64 bits is not rounded to infinity
        obtain ⟨hlow, hhigh⟩ := Json.wellFormed_int.mp hwell
        simp only [Json.minInt] at hlow
        simp only [Json.maxInt] at hhigh
        exact Number.Binary.isFinite_ofInt 64 (by omega) (by decide)
    · cases h
      rfl
    · cases h

/-- All counts are of 32 or of 64 bits. -/
structure InRange (p : RetryPolicy) : Prop where
  maxRetries : p.maxRetries ≤ max32
  initialBackoffMs : p.initialBackoffMs ≤ max64
  maxBackoffMs : p.maxBackoffMs ≤ max64

theorem depth_toJson (p : RetryPolicy) : p.toJson.depth = 1 := by
  obtain ⟨retries, initial, greatest, multiplier⟩ := p
  cases multiplier <;> rfl

theorem default_inRange : ({} : RetryPolicy).InRange := ⟨by decide, by decide, by decide⟩

theorem default_isFinite : ({} : RetryPolicy).multiplier.isFinite = true := by decide +kernel

theorem faithful :
    Faithful toJson reader (fun p => p.InRange ∧ p.multiplier.isFinite = true) 1 where
  legible p h := by
    have hretries := Faithful.whole32.legible _ h.1.maxRetries
    have hinitial := Faithful.whole64.legible _ h.1.initialBackoffMs
    have hgreatest := Faithful.whole64.legible _ h.1.maxBackoffMs
    have hmultiplier := real_faithful.legible _ h.2
    exact Json.legible_object (by simp [hretries, hinitial, hgreatest, hmultiplier])
  reads p h := Reads.object fun room hroom => by
    have hretries := Faithful.whole32.reads _ h.1.maxRetries room (Nat.zero_le _)
    have hinitial := Faithful.whole64.reads _ h.1.initialBackoffMs room (Nat.zero_le _)
    have hgreatest := Faithful.whole64.reads _ h.1.maxBackoffMs room (Nat.zero_le _)
    have hmultiplier := real_faithful.reads _ h.2 room
      (hroom ("multiplier", realJson p.multiplier) (by simp))
    simp [reader, hretries, hinitial, hgreatest, hmultiplier]
  sound := by
    intro room n p hn h
    obtain ⟨g, hg, h⟩ := Json.ok_of_bind h
    obtain ⟨retries, hretries, h⟩ := Json.ok_of_bind h
    obtain ⟨initial, hinitial, h⟩ := Json.ok_of_bind h
    obtain ⟨greatest, hgreatest, h⟩ := Json.ok_of_bind h
    obtain ⟨multiplier, hmultiplier, h⟩ := Json.ok_of_bind h
    cases h
    have hvalues := (Json.sound_of_record hn hg).2
    have hdefault := default_inRange
    have hflat := Nat.le_of_eq (depth_realJson ({} : RetryPolicy).multiplier)
    refine ⟨⟨⟨?_, ?_, ?_⟩, ?_⟩, ?_⟩
    · exact (Faithful.whole32.withDefault hvalues ⟨hdefault.1, Nat.zero_le _⟩ hretries).1
    · exact (Faithful.whole64.withDefault hvalues ⟨hdefault.2, Nat.zero_le _⟩ hinitial).1
    · exact (Faithful.whole64.withDefault hvalues ⟨hdefault.3, Nat.zero_le _⟩ hgreatest).1
    · exact (real_faithful.withDefault hvalues ⟨default_isFinite, hflat⟩ hmultiplier).1
    · rw [depth_toJson]
      exact Nat.le_max_right _ _

end RetryPolicy

namespace Settings

/-- All counts are of 32 or of 64 bits. -/
structure InRange (c : Settings) : Prop where
  maxIterations : c.maxIterations ≤ max64
  retry : c.retry.InRange
  toolConcurrency : c.toolConcurrency ≤ max64
  toolTimeoutMs : ∀ t ∈ c.toolTimeoutMs, t ≤ max64
  maxContextTokens : ∀ t ∈ c.maxContextTokens, t ≤ max32

theorem timeout_faithful :
    Faithful (fun t => Json.ofOption (t.map .ofNat)) (Reader.whole max64).nullable
      (fun t => ∀ n ∈ t, n ≤ max64) 0 :=
  Faithful.whole64.nullable fun _ _ => nofun

theorem tokens_faithful :
    Faithful (fun t => Json.ofOption (t.map .ofNat)) (Reader.whole max32).nullable
      (fun t => ∀ n ∈ t, n ≤ max32) 0 :=
  Faithful.whole32.nullable fun _ _ => nofun

theorem prompt_faithful :
    Faithful (fun s => Json.ofOption (s.map .string)) Reader.text.nullable
      (fun s => ∀ t ∈ s, True) 0 :=
  Faithful.text.nullable fun _ _ => nofun

/-- The loop runs with no multiplier that is not finite. -/
theorem isFinite_of_validate {c : Settings} (h : c.validate = .ok ()) :
    c.retry.multiplier.isFinite = true := by
  unfold validate at h
  split at h
  · cases h
  · split at h
    · cases h
    · split at h
      · cases h
      · rename_i hmultiplier
        simp only [Bool.not_eq_true', Bool.not_eq_false, Bool.and_eq_true] at hmultiplier
        exact hmultiplier.1

theorem depth_toJson (c : Settings) : c.toJson.depth = 2 := by
  obtain ⟨iterations, retry, concurrency, timeout, tokens, prompt⟩ := c
  have hretry := retry.depth_toJson
  cases timeout <;> cases tokens <;> cases prompt <;>
    simp [toJson, Json.depth, Json.depthFields, hretry, Json.ofNat, Json.ofOption]

theorem faithful :
    Faithful toJson reader (fun c => c.InRange ∧ c.retry.multiplier.isFinite = true) 2 where
  legible c h := by
    have hiterations := Faithful.whole64.legible _ h.1.maxIterations
    have hretry := RetryPolicy.faithful.legible c.retry ⟨h.1.retry, h.2⟩
    have hconcurrency := Faithful.whole64.legible _ h.1.toolConcurrency
    have htimeout := timeout_faithful.legible _ h.1.toolTimeoutMs
    have htokens := tokens_faithful.legible _ h.1.maxContextTokens
    have hprompt := prompt_faithful.legible c.systemPrompt fun _ _ => trivial
    exact Json.legible_object
      (by simp [hiterations, hretry, hconcurrency, htimeout, htokens, hprompt])
  reads c h := Reads.object fun room hroom => by
    have hiterations := Faithful.whole64.reads _ h.1.maxIterations room (Nat.zero_le _)
    have hretry := RetryPolicy.faithful.reads c.retry ⟨h.1.retry, h.2⟩ room
      (hroom ("retry", c.retry.toJson) (by simp))
    have hconcurrency := Faithful.whole64.reads _ h.1.toolConcurrency room (Nat.zero_le _)
    have htimeout := timeout_faithful.reads _ h.1.toolTimeoutMs room
      (hroom ("tool_timeout_ms", .ofOption (c.toolTimeoutMs.map .ofNat)) (by simp))
    have htokens := tokens_faithful.reads _ h.1.maxContextTokens room
      (hroom ("max_context_tokens", .ofOption (c.maxContextTokens.map .ofNat)) (by simp))
    have hprompt := prompt_faithful.reads c.systemPrompt (fun _ _ => trivial) room
      (hroom ("system_prompt", .ofOption (c.systemPrompt.map .string)) (by simp))
    simp [reader, hiterations, hretry, hconcurrency, htimeout, htokens, hprompt]
  sound := by
    intro room n c hn h
    obtain ⟨g, hg, h⟩ := Json.ok_of_bind h
    obtain ⟨iterations, hiterations, h⟩ := Json.ok_of_bind h
    obtain ⟨retry, hretry, h⟩ := Json.ok_of_bind h
    obtain ⟨concurrency, hconcurrency, h⟩ := Json.ok_of_bind h
    obtain ⟨timeout, htimeout, h⟩ := Json.ok_of_bind h
    obtain ⟨tokens, htokens, h⟩ := Json.ok_of_bind h
    obtain ⟨prompt, hprompt, h⟩ := Json.ok_of_bind h
    cases h
    have hvalues := (Json.sound_of_record hn hg).2
    have hdefault := And.intro RetryPolicy.default_inRange RetryPolicy.default_isFinite
    have hpolicy := (RetryPolicy.faithful.withDefault hvalues
      ⟨hdefault, Nat.le_of_eq (RetryPolicy.depth_toJson _)⟩ hretry).1
    refine ⟨⟨⟨?_, hpolicy.1, ?_, ?_, ?_⟩, hpolicy.2⟩, ?_⟩
    · exact (Faithful.whole64.withDefault hvalues ⟨by decide, Nat.zero_le _⟩ hiterations).1
    · exact (Faithful.whole64.withDefault hvalues ⟨by decide, Nat.zero_le _⟩ hconcurrency).1
    · exact (timeout_faithful.withDefault hvalues ⟨by simp, Nat.zero_le _⟩ htimeout).1
    · exact (tokens_faithful.withDefault hvalues ⟨by simp, Nat.zero_le _⟩ htokens).1
    · rw [depth_toJson]
      exact Nat.le_max_right _ _

end Settings

end AgentLoop
