import LibFastPaxos.ThreadedOrder
import LibFastPaxos.ReturningCalls
import LibFastPaxos.EventualDelivery
import LibFastPaxos.Lib.Execution
import LibFastPaxos.WireRefinement
import LibFastPaxos.WireSystem
import LibFastPaxos.AcceptorDatagrams
import LibFastPaxos.LearnerDatagrams
import LibFastPaxos.ProposerDatagrams
import LibFastPaxos.LeaderDatagrams
import LibFastPaxos.LeaderBuffer
import LibFastPaxos.Spelling
import LibFastPaxos.Lib.Rows
import LibFastPaxos.DiskFormat
import LibFastPaxos.AcceptorIsolation
import LibFastPaxos.TotalOrder
import LibFastPaxos.Lib.Broadcast
import LibFastPaxos.Lib.Refinement
import LibFastPaxos.AcceptorPromises
import LibFastPaxos.ReferenceAcceptor
import LibFastPaxos.AcceptorBallots
import LibFastPaxos.AcceptorCoherence
import LibFastPaxos.FastRound
import LibFastPaxos.LeaderRuns
import LibFastPaxos.LeaderPhase2
import LibFastPaxos.BallotIdentity
import LibFastPaxos.AcceptorVotes
import LibFastPaxos.LeaderBallots
import LibFastPaxos.LeaderCounts
import LibFastPaxos.LeaderJustified
import LibFastPaxos.LeaderRestarts
import LibFastPaxos.ProposerThreads
import LibFastPaxos.LearnerRuns
import LibFastPaxos.LearnerDelivery
import LibFastPaxos.ExactlyOnce
import LibFastPaxos.LearnerRetransmission
import LibFastPaxos.LeaderIssues
import LibFastPaxos.AcceptorMissing
import LibFastPaxos.AcceptorDurability
import LibFastPaxos.Receivers
import LibFastPaxos.PromiseRoundTrip
import LibFastPaxos.ObstructionFreedom
