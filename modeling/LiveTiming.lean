import LiveTiming.Main
import LiveTiming.Site
import LiveTiming.Proofs.FiringOrder
import LiveTiming.Proofs.RaceOrder
import LiveTiming.Proofs.FrameLimit
import LiveTiming.Proofs.RecordReading
import LiveTiming.Proofs.RaceRecords
import LiveTiming.Proofs.Grammar
import LiveTiming.Proofs.CommandRecords
import LiveTiming.Proofs.FailedLines
import LiveTiming.Proofs.Utf8Reading
import LiveTiming.Proofs.ConsoleLines
import LiveTiming.Proofs.ConsoleSession
import LiveTiming.Proofs.FloorRun
import LiveTiming.Proofs.LongLines
import LiveTiming.Proofs.ServiceFloor
import LiveTiming.Proofs.EventFates
import LiveTiming.Proofs.DriverWaking
import LiveTiming.Proofs.PromptService
import LiveTiming.Proofs.PromptTasks
import LiveTiming.Proofs.Agreement
import LiveTiming.Proofs.HubAgreement
import LiveTiming.Proofs.Errands
import LiveTiming.Proofs.SubscriberIsolation
import LiveTiming.Proofs.DriverAtWork
import LiveTiming.Proofs.IdealTimeline
import LiveTiming.Proofs.Punctuality
import LiveTiming.Proofs.DeskRun
import LiveTiming.Proofs.ServiceDesk
import LiveTiming.Proofs.ServiceFates
import LiveTiming.Proofs.RaceAborts
import LiveTiming.Proofs.SeededDraws
import LiveTiming.Proofs.QueueHistory
import LiveTiming.Proofs.WireRun
import LiveTiming.Proofs.ConnectionFates
import LiveTiming.Proofs.OversizedFrames
import LiveTiming.Proofs.RundownForm
import LiveTiming.Proofs.SurplusWords
import LiveTiming.Proofs.BufferProgress
import LiveTiming.Proofs.DuePass
import LiveTiming.Proofs.FailingOutput
import LiveTiming.Proofs.BroadcastRound
import LiveTiming.Proofs.RosterNumbers
import LiveTiming.Proofs.RaceBooking
import LiveTiming.Proofs.RealDelays
import LiveTiming.Proofs.RaceEnvelope
import LiveTiming.Proofs.RandomRecords
import LiveTiming.Proofs.LogText
import LiveTiming.Proofs.ServiceTasks
import LiveTiming.Proofs.LongestRace
import LiveTiming.Proofs.EventReach
