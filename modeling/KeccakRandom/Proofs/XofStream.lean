import KeccakRandom.Proofs.Incremental
import KeccakRandom.Proofs.Lifecycle

/-! The stream of the XOF generator.
The generator relies on what the hash library documents of its XOF, with `out D` the output
stream for the input `D` (`Xof.Lawful`): a hasher fed `a` and then `b` is the hasher fed
`a ++ b`; a reader made from the fresh hasher, or from one fed `D`, starts at the beginning of
the output of what it was fed; and reading `n` bytes and then `m` bytes reads the first
`n + m`. The Keccak sponge keeps these laws with the SHAKE256 stream (`shake256_lawful`).

Given them, while the generator absorbs, its hasher is the fresh one fed its ledger's seed and
its count of absorbed bytes is the length of that seed as a 64-bit word; once finished, its
reader reads the output of that seed from the number of bytes drawn since (`ReadsFrom`), and
those bytes are the first bytes of that output. Every call keeps this (`Streams`), so however
the seed is split over absorbs and the output over draws and words, with refused calls
anywhere, the output is a prefix of the output stream of the seed. -/

namespace KeccakRandom

/-- What the XOF generator relies on of its XOF, `out D` being the output stream for the
input `D`. -/
structure Xof.Lawful (x : Xof) (out : List UInt8 → Nat → UInt8) : Prop where
  update_append : ∀ h a b, x.update (x.update h a) b = x.update h (a ++ b)
  read_fresh : ∀ n, (x.read (x.finalize x.init) n).1.data.toList = (List.range n).map (out [])
  read_fed : ∀ D n, (x.read (x.finalize (x.update x.init D)) n).1.data.toList =
    (List.range n).map (out D.data.toList)
  read_add : ∀ r n m, x.read r (n + m) =
    ((x.read r n).1 ++ (x.read (x.read r n).2 m).1, (x.read (x.read r n).2 m).2)

def Xof.ReadsFrom (x : Xof) (out : List UInt8 → Nat → UInt8) (r : x.Reader) (D : List UInt8)
    (p : Nat) : Prop :=
  ∀ m, (x.read r m).1.data.toList = (List.range' p m).map (out D)

namespace Xof

variable {x : Xof} {out : List UInt8 → Nat → UInt8}

theorem Lawful.readsFrom_finalize (laws : x.Lawful out) (seed : List UInt8) :
    x.ReadsFrom out (x.finalize (x.update x.init ⟨seed.toArray⟩)) seed 0 := by
  intro m
  rw [laws.read_fed, List.range_eq_range']

theorem Lawful.readsFrom_fresh (laws : x.Lawful out) : x.ReadsFrom out (x.finalize x.init) [] 0 := by
  intro m
  rw [laws.read_fresh, List.range_eq_range']

theorem Lawful.readsFrom_read (laws : x.Lawful out) {r : x.Reader} {D : List UInt8} {p : Nat}
    (reads : x.ReadsFrom out r D p) (m : Nat) : x.ReadsFrom out (x.read r m).2 D (p + m) := by
  intro k
  have whole := reads (m + k)
  rw [laws.read_add, Keccak.data_append, reads m, ← List.range'_append_1, List.map_append] at whole
  exact List.append_cancel_left whole

theorem ReadsFrom.append_read {r : x.Reader} {D F : List UInt8} (reads : x.ReadsFrom out r D F.length)
    (front : F = (List.range F.length).map (out D)) (m : Nat) :
    F ++ (x.read r m).1.data.toList = (List.range (F.length + m)).map (out D) := by
  rw [reads m, List.range_eq_range', ← List.range'_append_1, List.map_append, Nat.zero_add,
    ← List.range_eq_range', ← front]

end Xof

namespace XofGenerator

variable {x : Xof} {out : List UInt8 → Nat → UInt8}

/-- What a session of the XOF generator holds: the count of absorbed bytes is the length of the
seed as a 64-bit word; an absorbing hasher is the fresh one fed the seed; a reader reads the
output stream of the seed from the number of bytes drawn since the finish, and those bytes are
the first bytes of that stream. -/
structure Streams (out : List UInt8 → Nat → UInt8) (s : Session (XofGenerator x)) : Prop where
  absorbed : s.gen.absorbed = UInt64.ofNat s.ledger.seed.length
  absorbing : ∀ h, s.gen.sponge = .absorbing h →
    h = x.init ∧ s.ledger.seed = [] ∨ h = x.update x.init ⟨s.ledger.seed.toArray⟩
  squeezing : ∀ r, s.gen.sponge = .squeezing r →
    x.ReadsFrom out r s.ledger.seed s.ledger.drawn.length ∧
      s.ledger.drawn = (List.range s.ledger.drawn.length).map (out s.ledger.seed)

theorem streams_start : Streams out (Session.start (fresh : XofGenerator x)) where
  absorbed := rfl
  absorbing _ h := by
    cases h
    exact .inl ⟨rfl, rfl⟩
  squeezing _ h := nomatch h

theorem fed_update (laws : x.Lawful out) {h : x.Hasher} {seed : List UInt8}
    (fed : h = x.init ∧ seed = [] ∨ h = x.update x.init ⟨seed.toArray⟩) (d : ByteArray) :
    x.update h d = x.update x.init ⟨(seed ++ d.data.toList).toArray⟩ := by
  rcases fed with ⟨rfl, rfl⟩ | rfl
  · rw [List.nil_append, Array.toArray_toList]
  · rw [laws.update_append]
    congr 1

theorem readsFrom_of_fed (laws : x.Lawful out) {h : x.Hasher} {seed : List UInt8}
    (fed : h = x.init ∧ seed = [] ∨ h = x.update x.init ⟨seed.toArray⟩) :
    x.ReadsFrom out (x.finalize h) seed 0 := by
  rcases fed with ⟨rfl, rfl⟩ | rfl
  · exact laws.readsFrom_fresh
  · exact laws.readsFrom_finalize seed

variable {s : Session (XofGenerator x)}

theorem Streams.step (laws : x.Lawful out) (inv : Streams out s) (c : Call) :
    Streams out (s.step c) := by
  refine Session.step_cases s c inv (fun _ => streams_start) (fun d g' _ absorbed => ?_)
    (fun g' _ finished => ?_) (fun m bs g' effect drawn => ?_)
  · obtain ⟨a, sponge, rfl⟩ := absorb_eq_ok absorbed
    refine ⟨?_, fun a' same => ?_, fun r same => nomatch same⟩
    · show s.gen.absorbed + UInt64.ofNat d.size = UInt64.ofNat (s.ledger.seed ++ d.data.toList).length
      rw [inv.absorbed, List.length_append, UInt64.ofNat_add, Array.length_toList, ByteArray.size_data]
    · cases same
      exact .inr (fed_update laws (inv.absorbing a sponge) d)
  · obtain ⟨a, sponge, rfl⟩ := finish_eq_ok finished
    refine ⟨inv.absorbed, (fun a' same => nomatch same), fun r same => ?_⟩
    cases same
    exact ⟨readsFrom_of_fed laws (inv.absorbing a sponge), rfl⟩
  · obtain ⟨r, sponge, rfl, rfl⟩ := draw_eq_ok drawn
    obtain ⟨reads, front⟩ := inv.squeezing r sponge
    have size : (x.read r m).1.data.toList.length = m := by
      rw [reads m, List.length_map, List.length_range']
    refine ⟨inv.absorbed, (fun a same => nomatch same), fun r' same => ?_⟩
    cases same
    simp only
    rw [Call.output_replyOf effect size, List.length_append, size]
    exact ⟨laws.readsFrom_read reads m, reads.append_read front m⟩

theorem streams_run (laws : x.Lawful out) (cs : List Call) :
    Streams out (Session.run cs (.start (fresh : XofGenerator x))) :=
  Session.run_induction (fun _ c inv => inv.step laws c) cs streams_start

structure XofSession (out : List UInt8 → Nat → UInt8) (s : Session (XofGenerator x)) : Prop where
  absorbed : s.gen.absorbed = UInt64.ofNat s.ledger.seed.length
  stream : Generator.phase s.gen = .squeezing →
    s.ledger.drawn = (List.range s.ledger.drawn.length).map (out s.ledger.seed)
  finish_keeps : ∀ g', Generator.finish s.gen = .ok g' → g'.absorbed = s.gen.absorbed
  draw_keeps : ∀ n bs g', Generator.draw s.gen n = .ok (bs, g') → g'.absorbed = s.gen.absorbed

theorem Streams.xofSession (inv : Streams out s) : XofSession out s where
  absorbed := inv.absorbed
  stream squeezing := by
    cases sponge : s.gen.sponge with
    | absorbing a => simp [Generator.phase, phase, sponge] at squeezing
    | squeezing r => exact (inv.squeezing r sponge).2
  finish_keeps g' finished := by
    obtain ⟨a, -, rfl⟩ := finish_eq_ok finished
    rfl
  draw_keeps n bs g' drawn := by
    obtain ⟨r, -, -, rfl⟩ := draw_eq_ok drawn
    rfl

/-- The XOF stream: for every XOF with the laws the generator relies on, after any history of
calls from a new generator, refused calls included, the generator reports as absorbed the length
of the seed made of the absorbs that succeeded since it was made or last reset, as a 64-bit word,
before its input is finished and after; once finished, the bytes handed out since the finish, a
word counted as its bytes least significant first, are the first bytes of the output stream of
that seed, however seed and output were split; and neither a finish nor a draw changes the
count. Seeding in one call always succeeds and is the history of one absorb of the seed and one
finish. -/
theorem draws_follow_xof_stream {x : Xof} {out : List UInt8 → Nat → UInt8} (laws : x.Lawful out) :
    (∀ cs : List Call, XofSession out (Session.run cs (.start (fresh : XofGenerator x)))) ∧
    ∀ seed : ByteArray, ∃ g, (Generator.ofSeed seed : Except Fault (XofGenerator x)) = .ok g ∧
      Session.run [.absorb seed, .finish] (.start fresh) = ⟨g, ⟨seed.data.toList, some g, []⟩⟩ := by
  refine ⟨fun cs => (streams_run laws cs).xofSession, fun seed => ?_⟩
  have seeded : (Generator.ofSeed seed : Except Fault (XofGenerator x)) =
      .ok ⟨.squeezing (x.finalize (x.update x.init seed)), 0 + UInt64.ofNat seed.size⟩ := rfl
  exact ⟨_, seeded, Session.run_ofSeed seeded⟩

end XofGenerator

/-- Byte `i` of SHAKE256 of `D`. -/
def shake256Byte (D : List UInt8) (i : Nat) : UInt8 := byteAt (Keccak.shake256 ⟨D.toArray⟩ (i + 1)) i

theorem shake256_read_eq_map (D : List UInt8) (n : Nat) :
    (Xof.shake256.read (Xof.shake256.finalize (Xof.shake256.update Xof.shake256.init ⟨D.toArray⟩))
      n).1.data.toList = (List.range n).map (shake256Byte D) :=
  Keccak.Sponge.read_eq_map (Keccak.Sponge.size_finish _) n

theorem shake256_lawful : Xof.shake256.Lawful shake256Byte where
  update_append := Keccak.Sponge.absorb_append Keccak.Sponge.shake256
  read_fresh := shake256_read_eq_map []
  read_fed D n := by
    have same : (⟨D.data.toList.toArray⟩ : ByteArray) = D := by
      rw [Array.toArray_toList]
    rw [← shake256_read_eq_map, same]
  read_add := Keccak.Sponge.read_add

theorem shake256_draws_follow_stream :
    Xof.shake256.Lawful shake256Byte ∧
    ((∀ cs : List Call, XofGenerator.XofSession shake256Byte
        (Session.run cs (.start (XofGenerator.fresh : XofGenerator Xof.shake256)))) ∧
      ∀ seed : ByteArray, ∃ g,
        (Generator.ofSeed seed : Except Fault (XofGenerator Xof.shake256)) = .ok g ∧
        Session.run [.absorb seed, .finish] (.start XofGenerator.fresh) =
          ⟨g, ⟨seed.data.toList, some g, []⟩⟩) :=
  ⟨shake256_lawful, XofGenerator.draws_follow_xof_stream shake256_lawful⟩

end KeccakRandom
