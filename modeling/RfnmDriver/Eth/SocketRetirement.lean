import RfnmDriver.Eth.DataSocket

/-!
# Release of the data socket

While sockets are retired only when both workers have one and `dead_sock` is free, `dead_users` is
the number of workers that have not dropped the retired socket, and every un-published socket is
in the hands of its closer, in `dead_sock`, or released. `retires_of_ready` is the result for runs.
-/

namespace RfnmDriver.Eth

open StepSystem

variable {service following : Service} {ingest : Ingest} {tx : Option Nat} {sock : Nat}

/-! ## Users -/

/-- Nobody holds a socket exactly when it has no users. -/
theorem Service.users_eq_zero : service.users sock = 0 ↔ ¬ service.Held sock := by
  unfold users Held
  split <;> split <;> simp_all

/-- Both workers hold the socket. -/
theorem Service.users_of_both (hingest : service.ingest.Holds sock)
    (htx : service.tx = some sock) : service.users sock = 2 := by
  simp [users, hingest, htx]

/-! ## The invariant -/

/-- The invariant of runs in which sockets are retired when they are ready for it. -/
structure Inv (service : Service) : Prop where
  known : ∀ sock ∈ service.retired, sock < service.accepted
  conn : ∀ sock, service.connSock = some sock →
    sock < service.accepted ∧ sock ∉ service.retired
  /-- The accept thread works on an un-published connection. -/
  accepting : service.closer .accept ≠ .idle → service.connSock = none
  retiring : ∀ sock, service.Retiring sock →
    sock ∈ service.retired ∧ sock ∉ service.released ∧ service.deadSock ≠ some sock
  alone : ∀ first second sock, (service.closer first).sock = some sock →
    (service.closer second).sock = some sock → first = second
  dead : ∀ sock, service.deadSock = some sock →
    sock ∈ service.retired ∧ sock ∉ service.released ∧ service.deadUsers = service.users sock
  /-- While nobody holds the retired socket, the ingest worker is about to release it. -/
  last : ∀ sock, service.deadSock = some sock → ¬ service.Held sock →
    service.ingest = .releasing sock
  counted : ∀ sock, service.ingest = .counted sock ∨ service.ingest = .releasing sock →
    service.deadSock = some sock
  releasing : ∀ sock, service.ingest = .releasing sock → service.tx ≠ some sock
  held : ∀ sock, service.Held sock → service.connSock = some sock ∨ sock ∈ service.retired
  once : service.released.Nodup
  released : ∀ sock ∈ service.released, sock ∈ service.retired ∧ ¬ service.Held sock
  waiting : ∀ sock ∈ service.retired,
    sock ∈ service.released ∨ service.Retiring sock ∨ service.deadSock = some sock

/-- The invariant gives what is owed. -/
theorem Inv.retires (h : Inv service) : service.Retires where
  once := h.once
  retired sock hin := (h.released sock hin).1
  notHeld sock hin := (h.released sock hin).2
  counts sock hdead := (h.dead sock hdead).2.2
  reached sock hin hretiring hheld := by
    rcases h.waiting sock hin with hreleased | hcloser | hdead
    · exact .inl hreleased
    · exact absurd hcloser hretiring
    · exact .inr ⟨h.last sock hdead hheld, hdead⟩

/-- Nothing is un-published at first. -/
theorem init_inv : Inv Service.init := by
  constructor <;> simp [Service.init, Service.Retiring, Closing.sock, Service.Held, Ingest.Holds]

/-! ## Closers -/

/-- A closer is on its way to retire the socket it has in hand. -/
theorem Service.retiring_iff : service.Retiring sock ↔
    ∃ closer, (service.closer closer).sock = some sock := by
  constructor
  · rintro ⟨closer, waited, h⟩
    exact ⟨closer, by rw [h]; rfl⟩
  · rintro ⟨closer, h⟩
    cases hplace : service.closer closer with
    | retiring held waited =>
        rw [hplace] at h
        obtain rfl := Option.some.inj h
        exact ⟨closer, waited, hplace⟩
    | idle | closed =>
        rw [hplace] at h
        cases h

/-- A closer that moves on without a socket in hand, or with the same one, retires what it did. -/
theorem Inv.goto (h : Inv service) (closer : Closer) (place : Closing)
    (hplace : place.sock = (service.closer closer).sock)
    (haccept : closer = .accept → place ≠ .idle → service.connSock = none) :
    Inv (service.goto closer place) := by
  have hsock : ∀ other, ((service.goto closer place).closer other).sock =
      (service.closer other).sock := by
    intro other
    by_cases hother : other = closer
    · subst hother
      simpa [Service.goto] using hplace
    · simp [Service.goto, hother]
  have hretiring : ∀ sock, (service.goto closer place).Retiring sock ↔
      service.Retiring sock := by
    intro sock
    simp only [Service.retiring_iff, hsock]
  exact { h with
    accepting := by
      intro hbusy
      by_cases hcloser : closer = .accept
      · subst hcloser
        exact haccept rfl (by simpa [Service.goto] using hbusy)
      · exact h.accepting (by simpa [Service.goto, Ne.symm hcloser] using hbusy)
    retiring := fun sock hr => h.retiring sock ((hretiring sock).mp hr)
    alone := by
      simp only [hsock]
      exact h.alone
    waiting := fun sock hin => by
      rw [hretiring]
      exact h.waiting sock hin }

/-- With the published socket among the retired ones every socket known, held or released is
accounted for as before. -/
theorem Inv.unpublished (h : Inv service) (hconn : service.connSock = some sock) :
    (∀ held ∈ sock :: service.retired, held < service.accepted) ∧
      (∀ held, service.Held held → held ∈ sock :: service.retired) ∧
      ∀ held ∈ service.released, held ∈ sock :: service.retired ∧ ¬ service.Held held := by
  refine ⟨fun held hin => ?_, fun held hheld => ?_, fun held hin => ?_⟩
  · rcases List.mem_cons.mp hin with rfl | hin
    · exact (h.conn held hconn).1
    · exact h.known held hin
  · rcases h.held held hheld with hthis | hin
    · obtain rfl := Option.some.inj (hconn.symm.trans hthis)
      exact List.mem_cons_self
    · exact List.mem_cons_of_mem _ hin
  · obtain ⟨hretired, hfree⟩ := h.released held hin
    exact ⟨List.mem_cons_of_mem _ hretired, hfree⟩

/-- The published socket is un-published, and its closer has it. -/
theorem unpublish_inv (h : Inv service) (closer : Closer)
    (hidle : service.closer closer = .idle) (hconn : service.connSock = some sock) :
    Inv ((service.unpublishSock sock).goto closer (.retiring sock 0)) := by
  have hnew := (h.conn sock hconn).2
  obtain ⟨hknown, hholders, hreleased⟩ := h.unpublished hconn
  have hsock : ∀ other held, (((service.unpublishSock sock).goto closer
      (.retiring sock 0)).closer other).sock = some held ↔
        other = closer ∧ held = sock ∨ (service.closer other).sock = some held := by
    intro other held
    by_cases hother : other = closer
    · subst hother
      simp [Service.goto, hidle, Closing.sock, eq_comm]
    · simp [Service.goto, Service.unpublishSock, hother]
  have hretiring : ∀ held, ((service.unpublishSock sock).goto closer
      (.retiring sock 0)).Retiring held ↔ held = sock ∨ service.Retiring held := by
    intro held
    simp only [Service.retiring_iff, hsock]
    constructor
    · rintro ⟨other, ⟨-, hheld⟩ | hheld⟩
      · exact .inl hheld
      · exact .inr ⟨other, hheld⟩
    · rintro (hheld | ⟨other, hheld⟩)
      · exact ⟨closer, .inl ⟨rfl, hheld⟩⟩
      · exact ⟨other, .inr hheld⟩
  -- the published socket is in no closer's hand, so it has one closer from now on
  have hnot : ∀ other, (service.closer other).sock ≠ some sock := fun other hother =>
    hnew (h.retiring sock (Service.retiring_iff.mpr ⟨other, hother⟩)).1
  exact {
    known := hknown
    conn := by
      intro held hheld
      cases hheld
    accepting := fun _ => rfl
    retiring := by
      intro held hheld
      rcases (hretiring held).mp hheld with rfl | hheld
      · exact ⟨List.mem_cons_self, fun hin => hnew (h.released _ hin).1,
          fun hdead => hnew (h.dead _ hdead).1⟩
      · obtain ⟨hin, hkept⟩ := h.retiring held hheld
        exact ⟨List.mem_cons_of_mem _ hin, hkept⟩
    alone := by
      intro first second held
      rw [hsock, hsock]
      rintro (⟨hfirst, hsame⟩ | hfirst) (⟨hsecond, hother⟩ | hsecond)
      · rw [hfirst, hsecond]
      · exact absurd (hsame ▸ hsecond) (hnot second)
      · exact absurd (hother ▸ hfirst) (hnot first)
      · exact h.alone first second held hfirst hsecond
    dead := by
      intro held hheld
      obtain ⟨hin, hkept⟩ := h.dead held hheld
      exact ⟨List.mem_cons_of_mem _ hin, hkept⟩
    last := h.last
    counted := h.counted
    releasing := h.releasing
    held := fun held hheld => .inr (hholders held hheld)
    once := h.once
    released := hreleased
    waiting := by
      intro held hin
      rw [hretiring]
      rcases List.mem_cons.mp hin with rfl | hin
      · exact .inr (.inl (.inl rfl))
      · rcases h.waiting held hin with hreleased | hcloser | hdead
        · exact .inl hreleased
        · exact .inr (.inl (.inr hcloser))
        · exact .inr (.inr hdead) }

/-- The socket in a closer's hand goes to `dead_sock` while both workers have it. -/
theorem retire_inv (h : Inv service) (closer : Closer)
    (hcloser : (service.closer closer).sock = some sock) (hdead : service.deadSock = none)
    (hingest : service.ingest.Holds sock) (htx : service.tx = some sock) :
    Inv ((service.retireSock sock).goto closer .closed) := by
  obtain ⟨hretired, hreleased, -⟩ := h.retiring sock (Service.retiring_iff.mpr ⟨closer, hcloser⟩)
  have hsock : ∀ other held, (((service.retireSock sock).goto closer .closed).closer other).sock =
      some held ↔ other ≠ closer ∧ (service.closer other).sock = some held := by
    intro other held
    by_cases hother : other = closer
    · subst hother
      simp [Service.goto, Closing.sock]
    · simp [Service.goto, Service.retireSock, hother]
  -- only this closer had the socket, so nobody is on the way to retire it any more
  have hretiring : ∀ held, ((service.retireSock sock).goto closer .closed).Retiring held →
      service.Retiring held ∧ held ≠ sock := by
    intro held hheld
    obtain ⟨other, hother⟩ := Service.retiring_iff.mp hheld
    obtain ⟨hne, hin⟩ := (hsock other held).mp hother
    refine ⟨Service.retiring_iff.mpr ⟨other, hin⟩, ?_⟩
    rintro rfl
    exact hne (h.alone other closer held hin hcloser)
  have hnone : ∀ held, service.deadSock ≠ some held := by
    intro held hheld
    rw [hdead] at hheld
    cases hheld
  exact {
    known := h.known
    conn := h.conn
    accepting := by
      intro hbusy
      apply h.accepting
      by_cases hsame : closer = .accept
      · subst hsame
        intro hidle
        rw [hidle] at hcloser
        cases hcloser
      · simpa [Service.goto, Service.retireSock, Ne.symm hsame] using hbusy
    retiring := by
      intro held hheld
      obtain ⟨hcloser, hne⟩ := hretiring held hheld
      obtain ⟨hin, hkept, -⟩ := h.retiring held hcloser
      refine ⟨hin, hkept, fun hdead => hne ?_⟩
      exact (Option.some.inj hdead).symm
    alone := by
      intro first second held hfirst hsecond
      exact h.alone first second held ((hsock first held).mp hfirst).2
        ((hsock second held).mp hsecond).2
    dead := by
      intro held hheld
      obtain rfl := Option.some.inj hheld
      exact ⟨hretired, hreleased, (Service.users_of_both hingest htx).symm⟩
    last := by
      intro held hheld hfree
      obtain rfl := Option.some.inj hheld
      exact absurd (.inl hingest) hfree
    counted := fun held hheld => absurd (h.counted held hheld) (hnone held)
    releasing := h.releasing
    held := h.held
    once := h.once
    released := h.released
    waiting := by
      intro held hin
      rcases h.waiting held hin with hreleased | hcloses | hdead
      · exact .inl hreleased
      · by_cases hsame : held = sock
        · subst hsame
          exact .inr (.inr rfl)
        · obtain ⟨other, hother⟩ := Service.retiring_iff.mp hcloses
          refine .inr (.inl (Service.retiring_iff.mpr ⟨other, (hsock other held).mpr ⟨?_, hother⟩⟩))
          rintro rfl
          exact hsame (Option.some.inj (hother.symm.trans hcloser))
      · exact absurd hdead (hnone held) }

/-! ## Workers -/

/-- A worker that holds nothing takes the published socket. -/
theorem take_inv (h : Inv service)
    (hplace : ingest = service.ingest ∨
      service.ingest = .tracking none ∧ ingest = .tracking service.connSock)
    (hothers : tx = service.tx ∨ service.tx = none ∧ tx = service.connSock) :
    Inv { service with ingest := ingest, tx := tx } := by
  -- what is held now was held before, or is the published socket
  have hmore : ∀ held, ({ service with ingest := ingest, tx := tx } : Service).Held held →
      service.Held held ∨ service.connSock = some held := by
    rintro held (hingest | htx)
    · rcases hplace with rfl | ⟨-, rfl⟩
      · exact .inl (.inl hingest)
      · exact .inr hingest
    · rcases hothers with rfl | ⟨-, rfl⟩
      · exact .inl (.inr htx)
      · exact .inr htx
  -- a retired socket is not the published one
  have hsame : ∀ held ∈ service.retired,
      (ingest.Holds held ↔ service.ingest.Holds held) ∧
        (tx = some held ↔ service.tx = some held) := by
    intro held hin
    have hne : service.connSock ≠ some held := fun hconn => (h.conn held hconn).2 hin
    constructor
    · rcases hplace with rfl | ⟨hnone, rfl⟩
      · exact Iff.rfl
      · simp [hnone, Ingest.Holds, hne]
    · rcases hothers with rfl | ⟨hnone, rfl⟩
      · exact Iff.rfl
      · simp [hnone, hne]
  have hheld : ∀ held ∈ service.retired,
      (({ service with ingest := ingest, tx := tx } : Service).Held held ↔
        service.Held held) := by
    intro held hin
    obtain ⟨hingest, htx⟩ := hsame held hin
    exact or_congr hingest htx
  have hphase : ∀ held, ingest = .counted held ∨ ingest = .releasing held →
      ingest = service.ingest := by
    rintro held hheld
    rcases hplace with rfl | ⟨-, rfl⟩
    · rfl
    · rcases hheld with hheld | hheld <;> cases hheld
  exact { h with
    dead := by
      intro held hdead
      obtain ⟨hin, hkept, hcount⟩ := h.dead held hdead
      obtain ⟨hingest, htx⟩ := hsame held hin
      refine ⟨hin, hkept, hcount.trans ?_⟩
      simp only [Service.users, hingest, htx]
    last := by
      intro held hdead hfree
      have hin := (h.dead held hdead).1
      have hreleasing := h.last held hdead fun hbefore => hfree ((hheld held hin).mpr hbefore)
      rcases hplace with rfl | ⟨hnone, -⟩
      · exact hreleasing
      · rw [hnone] at hreleasing
        cases hreleasing
    counted := by
      intro held hphases
      refine h.counted held ?_
      rwa [← hphase held hphases]
    releasing := by
      intro held hreleasing
      have hbefore : service.ingest = .releasing held := by
        rwa [← hphase held (.inr hreleasing)]
      have hin := (h.dead held (h.counted held (.inr hbefore))).1
      intro htx
      exact h.releasing held hbefore ((hsame held hin).2.mp htx)
    held := by
      intro held hnow
      rcases hmore held hnow with hbefore | hconn
      · exact h.held held hbefore
      · exact .inl hconn
    released := by
      intro held hin
      obtain ⟨hretired, hfree⟩ := h.released held hin
      exact ⟨hretired, fun hnow => hfree ((hheld held hretired).mp hnow)⟩ }

/-- With these places of the two workers, one of them has dropped the socket. -/
structure Drops (service : Service) (ingest : Ingest) (tx : Option Nat) (sock : Nat) : Prop where
  held : service.Held sock
  users : ({ service with ingest := ingest, tx := tx } : Service).users sock =
    service.users sock - 1
  others : ∀ other, other ≠ sock → (ingest.Holds other ↔ service.ingest.Holds other) ∧
    (tx = some other ↔ service.tx = some other)
  /-- The worker that dropped it is back in its loop. -/
  phase : ingest = service.ingest ∨ ingest = .tracking none ∧ ∀ held,
    service.ingest ≠ .releasing held

/-- The TX worker drops the socket in its loop. -/
theorem drops_tx (htx : service.tx = some sock) : Drops service service.ingest none sock where
  held := .inr htx
  users := by simp [Service.users, htx]
  others other hne := by simp [htx, Ne.symm hne]
  phase := .inl rfl

/-- The ingest worker drops the socket in its loop, or after its peer closed. -/
theorem drops_ingest (hholds : service.ingest.Holds sock) :
    Drops service (.tracking none) service.tx sock where
  held := .inl hholds
  users := by
    have htracking : ¬ (Ingest.tracking none).Holds sock := nofun
    simp only [Service.users, hholds, htracking, if_true, if_false]
    omega
  others other hne := by
    refine ⟨?_, Iff.rfl⟩
    cases hingest : service.ingest with
    | tracking held =>
        rw [hingest] at hholds
        simp [Ingest.Holds] at hholds ⊢
        simp [hholds, Ne.symm hne]
    | dropping held | counted held =>
        rw [hingest] at hholds
        simp [Ingest.Holds] at hholds ⊢
        simp [hholds, Ne.symm hne]
    | releasing held =>
        rw [hingest] at hholds
        cases hholds
  phase := .inr ⟨rfl, fun held hreleasing => by
    rw [hreleasing] at hholds
    cases hholds⟩

variable {held : Nat}

/-- What is held after the drop was held before. -/
theorem Drops.fewer (hdrops : Drops service ingest tx sock)
    (hnow : ({ service with ingest := ingest, tx := tx } : Service).Held held) :
    service.Held held := by
  by_cases hsame : held = sock
  · exact hsame ▸ hdrops.held
  · obtain ⟨hingest, htx⟩ := hdrops.others held hsame
    exact (or_congr hingest htx).mp hnow

/-- Whoever holds another socket still does. -/
theorem Drops.kept (hdrops : Drops service ingest tx sock) (hne : held ≠ sock)
    (hbefore : service.Held held) :
    ({ service with ingest := ingest, tx := tx } : Service).Held held := by
  obtain ⟨hingest, htx⟩ := hdrops.others held hne
  exact (or_congr hingest htx).mpr hbefore

/-- If somebody else still has the socket, or it is not the one in `dead_sock`, the drop leaves
`dead_sock` alone. -/
theorem drop_inv (h : Inv service) (hdrops : Drops service ingest tx sock) (deadUsers : Int)
    (hcount : deadUsers =
      service.deadUsers - if service.deadSock = some sock then 1 else 0)
    (hleft : service.deadSock = some sock → service.users sock ≠ 1) :
    Inv { service with ingest := ingest, tx := tx, deadUsers := deadUsers } := by
  have hphase : ∀ held, ingest = .counted held ∨ ingest = .releasing held →
      ingest = service.ingest := by
    rintro held hnow
    rcases hdrops.phase with hsame | ⟨hback, -⟩
    · exact hsame
    · rw [hback] at hnow
      rcases hnow with hnow | hnow <;> cases hnow
  exact { h with
    dead := by
      intro held hdead
      obtain ⟨hin, hkept, husers⟩ := h.dead held hdead
      refine ⟨hin, hkept, ?_⟩
      show deadUsers = ({ service with ingest := ingest, tx := tx } : Service).users held
      by_cases hsame : held = sock
      · subst hsame
        rw [hcount, if_pos hdead]
        exact (congrArg (· - 1) husers).trans hdrops.users.symm
      · have hne : service.deadSock ≠ some sock := fun hthis =>
          hsame (Option.some.inj (hdead.symm.trans hthis))
        obtain ⟨hingest, htx⟩ := hdrops.others held hsame
        rw [hcount, if_neg hne, Int.sub_zero]
        refine husers.trans ?_
        simp only [Service.users, hingest, htx]
    last := by
      intro held hdead hfree
      by_cases hsame : held = sock
      · subst hsame
        have hzero : ({ service with ingest := ingest, tx := tx } : Service).users held = 0 :=
          Service.users_eq_zero.mpr hfree
        have husers := hdrops.users
        have hone : service.users held = 1 := by omega
        exact absurd hone (hleft hdead)
      · have hbefore := h.last held hdead fun hnow => hfree (hdrops.kept hsame hnow)
        rcases hdrops.phase with hkept | ⟨-, hnot⟩
        · exact hkept.trans hbefore
        · exact absurd hbefore (hnot held)
    counted := by
      intro held hnow
      apply h.counted held
      rwa [← hphase held hnow]
    releasing := by
      intro held hnow htx
      have hbefore : service.ingest = .releasing held := by
        rwa [← hphase held (.inr hnow)]
      have hdead := h.counted held (.inr hbefore)
      by_cases hsame : held = sock
      · subst hsame
        -- the TX worker does not have the socket, so nobody could drop it
        rcases hdrops.held with hholds | hholds
        · rw [hbefore] at hholds
          cases hholds
        · exact h.releasing held hbefore hholds
      · exact h.releasing held hbefore ((hdrops.others held hsame).2.mp htx)
    held := fun held hnow => h.held held (hdrops.fewer hnow)
    released := fun held hin =>
      ⟨(h.released held hin).1, fun hnow => (h.released held hin).2 (hdrops.fewer hnow)⟩ }

/-- The socket in `dead_sock` is released when nobody holds it, and the ingest worker is in its
loop or before its comparison. -/
theorem release_inv (h : Inv service) (deadUsers : Int) (hdead : service.deadSock = some sock)
    (hfree : ¬ ({ service with ingest := ingest, tx := tx } : Service).Held sock)
    (hfewer : ∀ held, ({ service with ingest := ingest, tx := tx } : Service).Held held →
      service.Held held)
    (hphase : ∀ held, ¬ (ingest = .counted held ∨ ingest = .releasing held)) :
    Inv ({ service with ingest := ingest, tx := tx, deadUsers := deadUsers }.releaseDead sock) := by
  obtain ⟨hretired, hreleased, -⟩ := h.dead sock hdead
  -- the dead socket joins the released ones, once, as nobody holds it
  exact { h with
    retiring := by
      intro held hheld
      obtain ⟨hin, hkept, hne⟩ := h.retiring held hheld
      refine ⟨hin, fun hnow => ?_, nofun⟩
      rcases List.mem_cons.mp hnow with rfl | hnow
      · exact hne hdead
      · exact hkept hnow
    dead := nofun
    last := nofun
    counted := fun held hnow => absurd hnow (hphase held)
    releasing := fun held hnow => absurd (.inr hnow) (hphase held)
    held := fun held hnow => h.held held (hfewer held hnow)
    once := List.nodup_cons.mpr ⟨hreleased, h.once⟩
    released := by
      intro held hin
      rcases List.mem_cons.mp hin with rfl | hin
      · exact ⟨hretired, hfree⟩
      · obtain ⟨hret, hnot⟩ := h.released held hin
        exact ⟨hret, fun hnow => hnot (hfewer held hnow)⟩
    waiting := by
      intro held hin
      rcases h.waiting held hin with hdone | hcloser | hthis
      · exact .inl (List.mem_cons_of_mem _ hdone)
      · exact .inr (.inl hcloser)
      · obtain rfl := Option.some.inj (hdead.symm.trans hthis)
        exact .inl List.mem_cons_self }

/-- The last user drops the socket in `dead_sock`, and it is released. -/
theorem drop_last_inv (h : Inv service) (hdrops : Drops service ingest tx sock) (deadUsers : Int)
    (hdead : service.deadSock = some sock) (hlast : service.users sock = 1) :
    Inv ({ service with ingest := ingest, tx := tx, deadUsers := deadUsers }.releaseDead sock) := by
  have hfree : ¬ ({ service with ingest := ingest, tx := tx } : Service).Held sock := by
    apply Service.users_eq_zero.mp
    rw [hdrops.users, hlast]
    rfl
  refine release_inv h deadUsers hdead hfree (fun held => hdrops.fewer) fun held hnow => ?_
  rcases hdrops.phase with hkept | ⟨hback, -⟩
  · rw [hkept] at hnow
    obtain rfl := Option.some.inj (hdead.symm.trans (h.counted held hnow))
    rcases hnow with hcounted | hreleasing
    · exact hfree (.inl (by rw [hkept, hcounted]; rfl))
    · rcases hdrops.held with hholds | hholds
      · rw [hreleasing] at hholds
        cases hholds
      · exact h.releasing sock hreleasing hholds
  · rw [hback] at hnow
    rcases hnow with hnow | hnow <;> cases hnow

/-- `tcp_worker_track_sock` drops a socket that is no longer published. -/
theorem dropSock_inv (h : Inv service) (hdrops : Drops service ingest tx sock) :
    Inv (({ service with ingest := ingest, tx := tx } : Service).dropSock sock) := by
  unfold Service.dropSock
  split
  case isTrue hdead =>
    have hdead' : service.deadSock = some sock := hdead
    have hcount := (h.dead sock hdead').2.2
    dsimp only
    split
    case isTrue hzero =>
      exact drop_last_inv h hdrops _ hdead' (by omega)
    case isFalse hleft =>
      exact drop_inv h hdrops _ (by rw [if_pos hdead']) fun _ hone => hleft (by omega)
  case isFalse hdead =>
    have hdead' : service.deadSock ≠ some sock := hdead
    exact drop_inv h hdrops _ (by rw [if_neg hdead', Int.sub_zero]) fun hthis =>
      absurd hthis hdead'

/-- Dropping a socket neither looks at the workers nor changes them. -/
theorem Service.dropSock_place (service : Service) (sock : Nat) (ingest : Ingest)
    (tx : Option Nat) : ({ service with ingest := ingest, tx := tx } : Service).dropSock sock =
      { service.dropSock sock with ingest := ingest, tx := tx } := by
  simp only [dropSock, releaseDead]
  split <;> [split; skip] <;> simp_all

/-- Dropping a socket leaves the published one and the other worker alone. -/
@[simp] theorem Service.dropSock_frame (service : Service) (sock : Nat) :
    (service.dropSock sock).connSock = service.connSock ∧
      (service.dropSock sock).ingest = service.ingest ∧
      (service.dropSock sock).tx = service.tx := by
  simp only [dropSock, releaseDead]
  split <;> [split; skip] <;> exact ⟨rfl, rfl, rfl⟩

/-- `tcp_worker_track_sock` of the ingest worker. -/
theorem trackIngest_inv (h : Inv service) {held : Option Nat}
    (hingest : service.ingest = .tracking held) :
    Inv { service.track held with ingest := .tracking service.connSock } := by
  unfold Service.track
  split
  case isTrue hsame =>
    have hkept : ({ service with ingest := .tracking service.connSock } : Service) = service := by
      rw [hsame] at hingest
      rw [← hingest]
    rwa [hkept]
  case isFalse hgone =>
    cases held with
    | none => exact take_inv h (.inr ⟨hingest, rfl⟩) (.inl rfl)
    | some sock =>
        have hdropped := dropSock_inv h (drops_ingest (by rw [hingest]; rfl))
        rw [Service.dropSock_place] at hdropped
        have htaken := take_inv hdropped (.inr ⟨rfl, rfl⟩) (.inl rfl)
        simpa using htaken

/-- `tcp_worker_track_sock` of the TX worker. -/
theorem trackTx_inv (h : Inv service) :
    Inv { service.track service.tx with tx := service.connSock } := by
  unfold Service.track
  split
  case isTrue hsame =>
    have hkept : ({ service with tx := service.connSock } : Service) = service :=
      congrArg (fun tx => ({ service with tx := tx } : Service)) hsame.symm
    rwa [hkept]
  case isFalse hgone =>
    cases htx : service.tx with
    | none => exact take_inv h (.inl rfl) (.inr ⟨htx, rfl⟩)
    | some sock =>
        have hdropped := dropSock_inv h (drops_tx htx)
        rw [Service.dropSock_place] at hdropped
        have htaken := take_inv hdropped (.inl rfl) (.inr ⟨rfl, rfl⟩)
        simpa using htaken

/-! ## The peer closes -/

/-- A step of the ingest worker's peer-close path with the socket still in its hand. -/
theorem rephase_inv (h : Inv service) (hholds : service.ingest.Holds sock)
    (hsame : ∀ held, ingest.Holds held ↔ service.ingest.Holds held)
    (hcounted : ∀ held, ingest = .counted held → service.deadSock = some held)
    (hphase : ∀ held, ingest ≠ .releasing held) : Inv { service with ingest := ingest } := by
  have hheld : ∀ held, ({ service with ingest := ingest } : Service).Held held ↔
      service.Held held := fun held => or_congr (hsame held) Iff.rfl
  exact { h with
    dead := by
      intro held hdead
      obtain ⟨hin, hkept, husers⟩ := h.dead held hdead
      refine ⟨hin, hkept, husers.trans ?_⟩
      simp only [Service.users, hsame]
    last := by
      intro held hdead hfree
      have hreleasing := h.last held hdead fun hnow => hfree ((hheld held).mpr hnow)
      rw [hreleasing] at hholds
      cases hholds
    counted := by
      rintro held (hnow | hnow)
      · exact hcounted held hnow
      · exact absurd hnow (hphase held)
    releasing := fun held hnow => absurd hnow (hphase held)
    held := fun held hnow => h.held held ((hheld held).mp hnow)
    released := fun held hin =>
      ⟨(h.released held hin).1, fun hnow => (h.released held hin).2 ((hheld held).mp hnow)⟩ }

/-- The ingest worker un-publishes its own socket and retires it at once. -/
theorem retireOwn_inv (h : Inv service) (hingest : service.ingest = .dropping sock)
    (hconn : service.connSock = some sock) (hdead : service.deadSock = none)
    (htx : service.tx = some sock) : Inv ((service.unpublishSock sock).retireSock sock) := by
  have hnew := (h.conn sock hconn).2
  obtain ⟨hknown, hholders, hreleased⟩ := h.unpublished hconn
  have hholds : service.ingest.Holds sock := by rw [hingest]; rfl
  have hnone : ∀ held, service.deadSock ≠ some held := by
    intro held hheld
    rw [hdead] at hheld
    cases hheld
  -- the worker un-publishes and retires in one go, so no closer ever has the socket
  exact {
    known := hknown
    conn := nofun
    accepting := fun _ => rfl
    retiring := by
      intro held hheld
      obtain ⟨hin, hkept, -⟩ := h.retiring held hheld
      refine ⟨List.mem_cons_of_mem _ hin, hkept, fun hthis => ?_⟩
      obtain rfl := Option.some.inj hthis
      exact hnew hin
    alone := h.alone
    dead := by
      intro held hheld
      obtain rfl := Option.some.inj hheld
      exact ⟨List.mem_cons_self, fun hin => hnew (h.released sock hin).1,
        (Service.users_of_both hholds htx).symm⟩
    last := by
      intro held hheld hfree
      obtain rfl := Option.some.inj hheld
      exact absurd (.inl hholds) hfree
    counted := fun held hnow => absurd (h.counted held hnow) (hnone held)
    releasing := h.releasing
    held := fun held hnow => .inr (hholders held hnow)
    once := h.once
    released := hreleased
    waiting := by
      intro held hin
      rcases List.mem_cons.mp hin with rfl | hin
      · exact .inr (.inr rfl)
      · rcases h.waiting held hin with hdone | hcloser | hthis
        · exact .inl hdone
        · exact .inr (.inl hcloser)
        · exact absurd hthis (hnone held) }

/-- The ingest worker's decrement outside the lock. -/
theorem decrement_inv (h : Inv service) (hingest : service.ingest = .counted sock) :
    Inv { service with
      deadUsers := service.deadUsers - 1
      ingest := if service.deadUsers - 1 = 0 then .releasing sock else .tracking none } := by
  have hholds : service.ingest.Holds sock := by rw [hingest]; rfl
  have hdead := h.counted sock (.inl hingest)
  obtain ⟨hin, hkept, hcount⟩ := h.dead sock hdead
  have hdrops := drops_ingest hholds
  split
  case isTrue hzero =>
    -- the TX worker is done with it, so the ingest worker is the last user
    have htx : service.tx ≠ some sock := by
      intro htx
      have htwo := Service.users_of_both hholds htx
      omega
    have hfree : ¬ ({ service with ingest := .releasing sock } : Service).Held sock := by
      rintro (hnow | hnow)
      · cases hnow
      · exact htx hnow
    have hfewer : ∀ held, ({ service with ingest := .releasing sock } : Service).Held held →
        service.Held held := by
      rintro held (hnow | hnow)
      · cases hnow
      · exact .inr hnow
    exact { h with
      dead := by
        intro held hthis
        obtain rfl := Option.some.inj (hdead.symm.trans hthis)
        exact ⟨hin, hkept, hzero.trans (Service.users_eq_zero.mpr hfree).symm⟩
      last := by
        intro held hthis _
        obtain rfl := Option.some.inj (hdead.symm.trans hthis)
        rfl
      counted := by
        rintro held (hnow | hnow)
        · cases hnow
        · obtain rfl := Ingest.releasing.inj hnow
          exact hdead
      releasing := by
        intro held hnow
        obtain rfl := Ingest.releasing.inj hnow
        exact htx
      held := fun held hnow => h.held held (hfewer held hnow)
      released := fun held hin =>
        ⟨(h.released held hin).1, fun hnow => (h.released held hin).2 (hfewer held hnow)⟩ }
  case isFalse hleft =>
    exact drop_inv h hdrops _ (by rw [if_pos hdead]) fun _ hone => hleft (by omega)

/-! ## Runs -/

/-- The accept thread publishes a socket that nobody knows yet. -/
theorem publish_inv (h : Inv service) (hclosed : service.closer .accept = .closed) :
    Inv { service.goto .accept .idle with
      connSock := some service.accepted, accepted := service.accepted + 1 } := by
  have hidle := h.goto .accept .idle (by rw [hclosed]; rfl) fun _ hbusy => absurd rfl hbusy
  have hnone : service.connSock = none := h.accepting (by rw [hclosed]; exact nofun)
  exact { hidle with
    known := fun held hin => Nat.lt_succ_of_lt (h.known held hin)
    conn := by
      intro held hthis
      obtain rfl := Option.some.inj hthis
      exact ⟨Nat.lt_succ_self _, fun hin => Nat.lt_irrefl _ (h.known _ hin)⟩
    accepting := fun hbusy => absurd (by simp [Service.goto]) hbusy
    held := by
      intro held hnow
      rcases h.held held hnow with hthis | hin
      · rw [hnone] at hthis
        cases hthis
      · exact .inr hin }

/-- A step that meets the condition keeps the invariant. -/
theorem next_inv (service : Service) (event : Event) (following : Service) (h : Inv service)
    (hready : Ready service event) (hnext : next service event = some following) :
    Inv following := by
  cases event with
  | unpublish closer =>
      simp only [next] at hnext
      split at hnext
      case h_2 => cases hnext
      case h_1 hidle =>
        split at hnext
        case h_1 sock hconn =>
          obtain rfl := Option.some.inj hnext
          exact unpublish_inv h closer hidle hconn
        case h_2 hconn =>
          obtain rfl := Option.some.inj hnext
          exact h.goto closer .closed (by rw [hidle]; rfl) fun _ _ => hconn
  | wait closer =>
      simp only [next] at hnext
      split at hnext
      case h_2 => cases hnext
      case h_1 sock waited hretiring =>
        obtain ⟨-, rfl⟩ := of_guard hnext
        refine h.goto closer _ (by rw [hretiring]; rfl) fun haccept _ => h.accepting ?_
        rw [← haccept, hretiring]
        exact nofun
  | retire closer =>
      simp only [next] at hnext
      split at hnext
      case h_2 => cases hnext
      case h_1 sock waited hretiring =>
        obtain ⟨-, rfl⟩ := of_guard hnext
        have hsock : (service.closer closer).sock = some sock := by rw [hretiring]; rfl
        obtain ⟨hdead, hingest, htx⟩ := hready sock hsock
        exact retire_inv h closer hsock hdead hingest htx
  | publish =>
      simp only [next] at hnext
      split at hnext
      case h_2 => cases hnext
      case h_1 hclosed =>
        obtain rfl := Option.some.inj hnext
        exact publish_inv h hclosed
  | trackIngest =>
      simp only [next] at hnext
      split at hnext
      case h_2 => cases hnext
      case h_1 held hingest =>
        obtain rfl := Option.some.inj hnext
        exact trackIngest_inv h hingest
  | trackTx =>
      obtain rfl := Option.some.inj hnext
      exact trackTx_inv h
  | peerClosed =>
      simp only [next] at hnext
      split at hnext
      case h_2 => cases hnext
      case h_1 sock hingest =>
        -- the peer is gone: the worker retires the socket itself if it is still published
        have hdropping : Inv { service with ingest := .dropping sock } := by
          have hholds : service.ingest.Holds sock := by
            rw [hingest]
            rfl
          refine rephase_inv h hholds (fun held => ?_) nofun nofun
          rw [hingest]
          simp [Ingest.Holds]
        split at hnext
        case isFalse =>
          obtain rfl := Option.some.inj hnext
          exact hdropping
        case isTrue hconn =>
          obtain ⟨hdead, htx⟩ := hready sock (by rw [hingest]; rfl) hconn
          rw [if_pos hdead] at hnext
          obtain rfl := Option.some.inj hnext
          exact retireOwn_inv hdropping rfl hconn hdead htx
  | compare =>
      simp only [next] at hnext
      split at hnext
      case h_2 => cases hnext
      case h_1 sock hingest =>
        obtain rfl := Option.some.inj hnext
        have hholds : service.ingest.Holds sock := by rw [hingest]; rfl
        split
        case isTrue hdead =>
          refine rephase_inv h hholds (fun held => ?_) (fun held hnow => ?_) nofun
          · rw [hingest]
            exact Iff.rfl
          · obtain rfl := Ingest.counted.inj hnow
            exact hdead
        case isFalse hdead =>
          exact drop_inv h (drops_ingest hholds) _ (by rw [if_neg hdead, Int.sub_zero])
            fun hthis => absurd hthis hdead
  | decrement =>
      simp only [next] at hnext
      split at hnext
      case h_2 => cases hnext
      case h_1 sock hingest =>
        obtain rfl := Option.some.inj hnext
        exact decrement_inv h hingest
  | release =>
      simp only [next] at hnext
      split at hnext
      case h_2 => cases hnext
      case h_1 sock dead hingest hdead =>
        obtain rfl := Option.some.inj hnext
        have hthis := h.counted sock (.inr hingest)
        obtain rfl := Option.some.inj (hdead.symm.trans hthis)
        have htx := h.releasing _ hingest
        refine release_inv h _ hdead ?_ (fun held => ?_)
          (by rintro held (hnow | hnow) <;> cases hnow)
        · rintro (hnow | hnow)
          · cases hnow
          · exact htx hnow
        · rintro (hnow | hnow)
          · cases hnow
          · exact .inr hnow

/-- In every run in which sockets are retired only when they are ready for it, retired sockets are
released exactly once, not while a worker holds them, and not later than when both have dropped
them. -/
theorem retires_of_ready (events : List Event) (hready : Guarded next Ready Service.init events) :
    Always next Service.Retires Service.init events :=
  (always_of_guarded next_inv init_inv hready).mono fun _ => Inv.retires

/-- A client is replaced by the next one, which closes by itself. -/
theorem retires_of_ready_run :
    Always next Service.Retires Service.init
      [.unpublish .accept, .publish, .trackIngest, .trackTx, .unpublish .accept, .retire .accept,
        .trackTx, .publish, .trackIngest, .trackTx, .peerClosed, .compare, .trackTx, .decrement,
        .release, .unpublish .destroy] :=
  retires_of_ready _ (by decide)

/-- A second client connects; the TX worker drops the first connection after it was un-published
and before it is in `dead_sock`, so its drop is not counted, and the connection stays there with
one user when nobody holds it any more. -/
theorem early_drop_leaks_socket :
    ¬ ∀ events : List Event, Always next Service.Retires Service.init events := by
  intro h
  have hfinal := (h [.unpublish .accept, .publish, .trackIngest, .trackTx, .unpublish .accept,
    .trackTx, .retire .accept, .trackIngest]).final rfl
  have hreleased := hfinal.reached 0 (by decide)
    (by rintro ⟨_ | _, waited, hplace⟩ <;> cases hplace) (by decide)
  revert hreleased
  decide

end RfnmDriver.Eth
