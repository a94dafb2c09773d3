import BlockThreads.Execution.Depth
import BlockThreads.Scripted
import BlockThreads.World
import BlockThreads.Proofs.Chronicle
import BlockThreads.Proofs.Effects
import BlockThreads.Proofs.Retirement
import BlockThreads.Proofs.Stepping
import BlockThreads.Proofs.SharedOutcomes
import BlockThreads.Proofs.Mirroring
import BlockThreads.Proofs.Recycling
import BlockThreads.Proofs.Levels
import BlockThreads.Proofs.Draining
import BlockThreads.Proofs.Glow
import BlockThreads.Proofs.ScriptHomes
import BlockThreads.Proofs.Visits
import BlockThreads.Proofs.ParameterScope
import BlockThreads.Proofs.Requests
import BlockThreads.Proofs.Casts
import BlockThreads.Proofs.Alignment
import BlockThreads.Proofs.Census
import BlockThreads.Proofs.Clicks
import BlockThreads.Proofs.Bindings
import BlockThreads.Proofs.Spelling.Tokens
import BlockThreads.Proofs.Documents
import BlockThreads.Proofs.BlockTexts
import BlockThreads.Proofs.BlockMaps
import BlockThreads.Proofs.GraphChanges
import BlockThreads.Proofs.Stopping
import BlockThreads.Proofs.ValueTexts
import BlockThreads.Proofs.Calls
import BlockThreads.Proofs.FirstRequests
import BlockThreads.Proofs.Resumptions
import BlockThreads.Proofs.Procedures
import BlockThreads.Proofs.RecursiveCalls
import BlockThreads.Proofs.Sequencing
import BlockThreads.Proofs.Misuses
import BlockThreads.Proofs.GlowHomes
import BlockThreads.Proofs.WarpMode
import BlockThreads.Proofs.LegacyRecords
