import AgentLoop.Agent
import AgentLoop.ChatServer.Service
import AgentLoop.Message.Order
import AgentLoop.Proofs.Turn.Budget
import AgentLoop.Proofs.Turn.LogShape
import AgentLoop.Rehearsal.Backend
import AgentLoop.Proofs.Session.WellPaired
import AgentLoop.Proofs.Session.OpenCalls
import AgentLoop.Proofs.Tool.Completion
import AgentLoop.Proofs.Tool.Registry
import AgentLoop.Proofs.Tool.Invocation
import AgentLoop.Proofs.Tool.Arguments
import AgentLoop.Proofs.Turn.Signal
import AgentLoop.Proofs.Turn.Batches
import AgentLoop.Proofs.Turn.Loop
import AgentLoop.Proofs.Turn.Recording
import AgentLoop.Proofs.Turn.Cancellation
import AgentLoop.Proofs.Turn.Phases
import AgentLoop.Proofs.Turn.Protocol
import AgentLoop.Proofs.Turn.Rerun
import AgentLoop.Proofs.Turn.Identifiers
import AgentLoop.Proofs.Json.Order
import AgentLoop.Proofs.Message.Order
import AgentLoop.Proofs.Session.Context
import AgentLoop.Proofs.Turn.Context
import AgentLoop.Proofs.Tool.Scheduling
import AgentLoop.Proofs.Turn.Scheduling
import AgentLoop.Proofs.Number.Powers
import AgentLoop.Proofs.Number.Spelling
import AgentLoop.Proofs.Json.Values
import AgentLoop.Proofs.Json.Numerals
import AgentLoop.Proofs.Json.Lexing
import AgentLoop.Proofs.Json.Assembly
import AgentLoop.Proofs.Json.Trees
import AgentLoop.Proofs.Json.Records
import AgentLoop.Proofs.Message.RoundTrip
import AgentLoop.Proofs.Session.Budget
import AgentLoop.Proofs.Provider.Requests
import AgentLoop.Proofs.Provider.Concurrency
import AgentLoop.Proofs.Wire.Replies
import AgentLoop.Proofs.Wire.Results
import AgentLoop.Proofs.Wire.Turns
import AgentLoop.Proofs.Wire.Settings
import AgentLoop.Proofs.Wire.Lossless
import AgentLoop.Proofs.Wire.Specs
import AgentLoop.Proofs.Provider.Succession
import AgentLoop.Proofs.Tool.Violations
import AgentLoop.Proofs.Tool.Schema
import AgentLoop.Proofs.ChatServer.Conversation
import AgentLoop.Proofs.ChatServer.Steps
import AgentLoop.Proofs.Message.FreshId
import AgentLoop.Proofs.ChatServer.Replies
import AgentLoop.Proofs.Settings.Backoff
import AgentLoop.Proofs.Turn.Ask
import AgentLoop.Proofs.InPlace
import AgentLoop.Proofs.Tool.Registration
import AgentLoop.Proofs.Provider.Usage
import AgentLoop.Proofs.Turn.Lifetime
import AgentLoop.Proofs.Turn.Submission
import AgentLoop.Proofs.Turn.Usage
import AgentLoop.Proofs.Time.Waiting
import AgentLoop.Proofs.Tool.Waiting
import AgentLoop.Proofs.Turn.Timing
import AgentLoop.Proofs.Turn.Exchanges
