import KeccakRandom.Bytes
import KeccakRandom.CappedBuffer
import KeccakRandom.Keccak.Permutation
import KeccakRandom.Keccak.Sponge
import KeccakRandom.Generator.Basic
import KeccakRandom.Generator.Counter
import KeccakRandom.Generator.Xof
import KeccakRandom.Generator.Call
import KeccakRandom.Proofs.Session
import KeccakRandom.Proofs.Stream
import KeccakRandom.Proofs.CounterSteps
import KeccakRandom.Proofs.Coherence
import KeccakRandom.Proofs.BlockLoop
import KeccakRandom.Proofs.Continuity
import KeccakRandom.Proofs.Seeding
import KeccakRandom.Proofs.Lifecycle
import KeccakRandom.Proofs.BufferView
import KeccakRandom.Proofs.Hygiene
import KeccakRandom.Proofs.Legacy
import KeccakRandom.Proofs.Incremental
import KeccakRandom.Proofs.XofStream
