/-
  The circle that the hand goes round.

  On each step the hand moves to the next place, and behind the last place it begins anew.  In a
  table of at most 2^32 frames it points to the frame with the number of its place, and a turn
  meets each frame once.  In a larger table it points to the first 2^32 frames again and again,
  the last time only to those that the pool starts with (`Stretched`); as long as the frames of
  interest are among these it meets them in their order all the same, but more than once in a
  turn.

  * `met` lists the frames that the hand points to, `circle` all frames in circular order;
  * `prefix_met`: the first frames of interest that two turns meet are those of the circle, twice.
-/
import DemandPaging.Clock
import Mathlib.Data.List.Nodup
import Mathlib.Data.Nat.ModEq

namespace DemandPaging

theorem Sweep.frameAt_of_lt {hand : Nat} (h : hand < limit32) : frameAt hand = hand :=
  Nat.mod_eq_of_lt h

theorem Sweep.frameAt_le {hand : Nat} : frameAt hand ≤ hand := Nat.mod_le _ _

namespace FrameTable

variable {size hand n m f g : Nat} {fs gs : List Frame} {p : Frame → Bool}

/-- The first `n` frames that the hand points to, in their order. -/
def met (size hand n : Nat) : List Frame :=
  (List.range n).map fun d => Sweep.frameAt ((hand + d) % size)

/-- All frames in circular order, from `f` on. -/
def circle (size f : Nat) : List Frame := (List.range size).map fun d => (f + d) % size

/-! ## Steps of the hand -/

theorem length_met : (met size hand n).length = n := by simp [met]

theorem met_succ (hhand : hand < size) :
    met size hand (n + 1) = Sweep.frameAt hand :: met size ((hand + 1) % size) n := by
  simp [met, List.range_succ_eq_map, Nat.mod_eq_of_lt hhand, Nat.add_comm, Nat.add_left_comm]

theorem met_add :
    met size hand (n + m) = met size hand n ++ met size ((hand + n) % size) m := by
  simp only [met, List.range_add, List.map_append, List.map_map]
  refine congrArg (_ ++ ·) (List.map_congr_left fun d _ => ?_)
  rw [Function.comp_apply, Nat.mod_add_mod, Nat.add_assoc]

theorem met_of_le (h : n ≤ m) : met size hand n <+: met size hand m := by
  obtain ⟨d, rfl⟩ := Nat.exists_eq_add_of_le h
  rw [met_add]
  exact List.prefix_append _ _

/-- Where a list of met frames is cut, the first part is met too, and then the frame behind it. -/
theorem met_split (h : met size hand n = fs ++ f :: gs) :
    fs = met size hand fs.length ∧ f = Sweep.frameAt ((hand + fs.length) % size) := by
  have hlen : fs.length < n := by
    have := congrArg List.length h
    rw [length_met, List.length_append, List.length_cons] at this
    omega
  constructor
  · have htake : (met size hand n).take fs.length = met size hand fs.length := by
      rw [met, ← List.map_take, List.take_range, Nat.min_eq_left (Nat.le_of_lt hlen), met]
    rw [← htake, h, List.take_left]
  · have hget := congrArg (·[fs.length]?) h
    simpa [met, hlen] using hget.symm

/-- The frame that comes next among those of interest is met at some step, and none of the others
    before it. -/
theorem exists_step (h : (met size hand n).filter p = fs ++ f :: gs) :
    ∃ m < n, (met size hand m).filter p = fs ∧ Sweep.frameAt ((hand + m) % size) = f ∧
      p f = true := by
  obtain ⟨xs, ys, hmet, rfl, hys⟩ := List.filter_eq_append_iff.1 h
  obtain ⟨ys₁, ys₂, rfl, hpassed, hf, -⟩ := List.filter_eq_cons_iff.1 hys
  rw [← List.append_assoc] at hmet
  obtain ⟨hbefore, hplace⟩ := met_split hmet
  refine ⟨(xs ++ ys₁).length, ?_, ?_, hplace.symm, hf⟩
  · have hall := congrArg List.length hmet
    rw [length_met, List.length_append, List.length_cons] at hall
    omega
  · rw [← hbefore, List.filter_append, List.filter_eq_nil_iff.2 hpassed, List.append_nil]

/-! ## The circle -/

/-- One turn comes to every frame. -/
theorem mem_circle (hf : f < size) (hg : g < size) : g ∈ circle size f := by
  refine List.mem_map.2 ⟨(g + size - f) % size, List.mem_range.2 (Nat.mod_lt _ (by omega)), ?_⟩
  rw [Nat.add_mod_mod, Nat.add_sub_cancel' (by omega), Nat.add_mod_right, Nat.mod_eq_of_lt hg]

/-- It comes to no frame twice. -/
theorem nodup_circle : (circle size f).Nodup := by
  refine List.Nodup.map_on (fun a ha b hb hab => ?_) List.nodup_range
  rw [List.mem_range] at ha hb
  have hmod : a % size = b % size := Nat.ModEq.add_left_cancel' f hab
  rwa [Nat.mod_eq_of_lt ha, Nat.mod_eq_of_lt hb] at hmod

/-- The frames from `f` to the last one are followed by those before `f`. -/
theorem circle_eq (hf : f < size) :
    circle size f = List.range' f (size - f) ++ List.range' 0 f := by
  have hsum : size = (size - f) + f := by omega
  rw [circle]
  conv => lhs; rw [hsum, List.range_add, List.map_append, List.map_map, ← hsum]
  congr 1
  · rw [List.range'_eq_map_range]
    refine List.map_congr_left fun d hd => Nat.mod_eq_of_lt ?_
    have := List.mem_range.1 hd
    omega
  · rw [List.range'_eq_map_range]
    refine List.map_congr_left fun d hd => ?_
    have hlt : d < size := Nat.lt_trans (List.mem_range.1 hd) hf
    rw [Function.comp_apply, ← Nat.add_assoc, Nat.add_sub_cancel' (Nat.le_of_lt hf), Nat.zero_add,
      Nat.add_mod_left, Nat.mod_eq_of_lt hlt]

/-! ## Two turns -/

/-- In a table of at most 2^32 frames a turn meets the frames of the circle. -/
theorem met_turn (hhand : hand < size) (hsize : size ≤ limit32) :
    met size hand size = circle size (Sweep.frameAt hand) := by
  rw [Sweep.frameAt_of_lt (Nat.lt_of_lt_of_le hhand hsize)]
  refine List.map_congr_left fun d _ => Sweep.frameAt_of_lt (Nat.lt_of_lt_of_le ?_ hsize)
  exact Nat.mod_lt _ (Nat.zero_lt_of_lt hhand)

/-- As long as there are numbers and places left the hand meets frames in the order of their
    numbers. -/
theorem met_stretch (hframe : hand % limit32 + n ≤ limit32) (hplace : hand + n ≤ size) :
    met size hand n = List.range' (hand % limit32) n := by
  rw [met, List.range'_eq_map_range]
  refine List.map_congr_left fun d hd => ?_
  have hlt : hand % limit32 + d < limit32 :=
    Nat.lt_of_lt_of_le (Nat.add_lt_add_left (List.mem_range.1 hd) _) hframe
  have hin : hand + d < size := Nat.lt_of_lt_of_le (Nat.add_lt_add_left (List.mem_range.1 hd) _) hplace
  rw [Nat.mod_eq_of_lt hin, Sweep.frameAt, ← Nat.mod_add_mod]
  exact Nat.mod_eq_of_lt hlt

/-- Two turns of the hand in a table of more than 2^32 frames begin with `k` frames from the one
    that it points to, and go twice through the frames in use from the first one on. -/
structure Stretched (size hand k l m : Nat) : Prop where
  within : k + (l + m) ≤ 2 * size
  first : size % limit32 ≤ hand % limit32 + k
  second : size % limit32 ≤ l
  third : size % limit32 ≤ m
  met_eq : met size hand (k + (l + m)) =
    List.range' (hand % limit32) k ++ (List.range' 0 l ++ List.range' 0 m)

/-- Three stretches, the second and the third from places that point to frame 0. -/
theorem stretched_of {a b k l m : Nat} (hk : hand % limit32 + k ≤ limit32) (hk' : hand + k ≤ size)
    (ha : (hand + k) % size = a) (ha' : a % limit32 = 0) (hl : l ≤ limit32) (hl' : a + l ≤ size)
    (hb : (a + l) % size = b) (hb' : b % limit32 = 0) (hm : m ≤ limit32) (hm' : b + m ≤ size)
    (hsum : k + (l + m) ≤ 2 * size) (hfirst : size % limit32 ≤ hand % limit32 + k)
    (hsecond : size % limit32 ≤ l) (hthird : size % limit32 ≤ m) : Stretched size hand k l m := by
  refine ⟨hsum, hfirst, hsecond, hthird, ?_⟩
  rw [met_add, ha, met_add, hb, met_stretch hk hk', met_stretch (ha' ▸ (Nat.zero_add l).symm ▸ hl) hl',
    met_stretch (hb' ▸ (Nat.zero_add m).symm ▸ hm) hm', ha', hb']

/-- The hand is two stretches or more before the last one, or just before it, or in it. -/
theorem exists_stretched (hhand : hand < size) (hsize : limit32 < size) :
    ∃ k l m, Stretched size hand k l m := by
  have hlimit : limit32 = 4294967296 := rfl
  have hmod : ∀ place, place % limit32 = place % 4294967296 := fun _ => rfl
  have hframe := hmod hand
  have husable := hmod size
  have hzeroth := hmod 0
  rcases Nat.eq_zero_or_pos (size % limit32) with hzero | hpos
  · exact ⟨0, 0, 0, Nat.zero_le _, by omega, by omega, by omega, rfl⟩
  -- where the stretch ends that the hand is in
  obtain ⟨stop, hstop⟩ : ∃ stop, stop = (hand / 4294967296 + 1) * 4294967296 := ⟨_, rfl⟩
  have hstart := hmod stop
  rcases Nat.lt_trichotomy (hand / 4294967296 + 1) (size / 4294967296) with hfar | hnext | hlast
  · have hfirst : (hand + (stop - hand)) % size = stop := by
      rw [Nat.add_sub_cancel' (by omega), Nat.mod_eq_of_lt (by omega)]
    have hsecond : (stop + 4294967296) % size = stop + 4294967296 := Nat.mod_eq_of_lt (by omega)
    have hnext := hmod (stop + 4294967296)
    refine ⟨_, _, size % 4294967296,
      stretched_of ?_ ?_ hfirst ?_ ?_ ?_ hsecond ?_ ?_ ?_ ?_ ?_ ?_ ?_⟩
    all_goals omega
  · have hfirst : (hand + (stop - hand)) % size = stop := by
      rw [Nat.add_sub_cancel' (by omega), Nat.mod_eq_of_lt (by omega)]
    have hsecond : (stop + size % 4294967296) % size = 0 := by
      rw [show stop + size % 4294967296 = size by omega, Nat.mod_self]
    refine ⟨_, _, size % 4294967296,
      stretched_of ?_ ?_ hfirst ?_ ?_ ?_ hsecond ?_ ?_ ?_ ?_ ?_ ?_ ?_⟩
    all_goals omega
  · have hfirst : (hand + (size - hand)) % size = 0 := by
      rw [Nat.add_sub_cancel' (Nat.le_of_lt hhand), Nat.mod_self]
    have hsecond : (0 + 4294967296) % size = 4294967296 := by
      rw [Nat.zero_add, Nat.mod_eq_of_lt (by omega)]
    have hnext := hmod 4294967296
    refine ⟨_, _, size % 4294967296,
      stretched_of ?_ ?_ hfirst ?_ ?_ ?_ hsecond ?_ ?_ ?_ ?_ ?_ ?_ ?_⟩
    all_goals omega

/-- There are no frames of interest behind those in use. -/
theorem filter_range'_of_le {u b n : Nat} (hp : ∀ f, p f = true → f < u) (hle : u ≤ b + n) :
    (List.range' b n).filter p = (List.range' b (u - b)).filter p := by
  have hsum : n = (u - b) + (n - (u - b)) := by omega
  have hnone : (List.range' (b + (u - b)) (n - (u - b))).filter p = [] := by
    refine List.filter_eq_nil_iff.2 fun f hf hmay => ?_
    have hge : u ≤ f := Nat.le_trans (by omega) (List.mem_range'_1.1 hf).1
    exact absurd (hp f hmay) (Nat.not_lt.2 hge)
  rw [hsum, ← List.range'_append_1, List.filter_append, hnone, List.append_nil]

/-- The first frames of interest that two turns of the hand meet are those of the circle, twice: in
    a table of at most 2^32 frames, or if all of them are in use. -/
theorem prefix_met (hhand : hand < size)
    (hreach : size ≤ limit32 ∨ ∀ f, p f = true → f < size % limit32) :
    (circle size (Sweep.frameAt hand)).filter p ++ (circle size (Sweep.frameAt hand)).filter p <+:
      (met size hand (2 * size)).filter p := by
  rcases Nat.lt_or_ge limit32 size with hlarge | hsmall
  · have hp := hreach.resolve_left (Nat.not_le.2 hlarge)
    obtain ⟨k, l, m, hstretched⟩ := exists_stretched hhand hlarge
    have hframe : hand % limit32 < size := Nat.lt_of_le_of_lt Sweep.frameAt_le hhand
    have husable : size % limit32 ≤ size := Nat.mod_le _ _
    refine List.IsPrefix.trans ?_ ((met_of_le hstretched.within).filter p)
    obtain ⟨-, hfirst, hsecond, hthird, hmet⟩ := hstretched
    rw [hmet, Sweep.frameAt, circle_eq hframe]
    revert hframe hfirst husable
    generalize hand % limit32 = b
    generalize size % limit32 = u at *
    intro hframe husable hfirst
    have hfull {n : Nat} (hn : u ≤ n) :
        (List.range' 0 n).filter p = (List.range' 0 b).filter p ++ (List.range' b (u - b)).filter p := by
      have hsplit := filter_range'_of_le (b := 0) (n := b + (u - b)) hp (by omega)
      rw [← List.range'_append_1, List.filter_append, Nat.zero_add] at hsplit
      rw [hsplit]
      exact filter_range'_of_le hp (by omega)
    simp only [List.filter_append]
    rw [filter_range'_of_le hp hfirst, filter_range'_of_le (b := b) (n := size - b) hp (by omega),
      hfull hsecond, hfull hthird]
    exact ⟨(List.range' b (u - b)).filter p, by simp only [List.append_assoc]⟩
  · have hturn := met_turn hhand hsmall
    have hround : (hand + size) % size = hand := by
      rw [Nat.add_mod_right, Nat.mod_eq_of_lt hhand]
    have htwice : met size hand (2 * size) =
        circle size (Sweep.frameAt hand) ++ circle size (Sweep.frameAt hand) := by
      rw [Nat.two_mul, met_add, hround, hturn]
    exact ⟨[], by rw [htwice, List.filter_append, List.append_nil]⟩

end FrameTable

end DemandPaging
