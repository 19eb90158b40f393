import Rukkit.Lib.Tasks
import Rukkit.Server.Admission

/-!
# Player slots

Any number of connections over one registry: which entries it holds at any time.
-/

namespace Rukkit.Server

open Rukkit.Lib Rukkit.Protocol

/-! ## The seat of one task -/

/-- The seat a task has after a call. -/
def Call.seat (seat : Option PlayerInfo) : Call → Option PlayerInfo
  | .tryInsert info _ (.ok ()) => some info
  | .remove _ _ => none
  | _ => seat

/-- The player a task has inserted and not removed. -/
def seated (calls : List Call) : Option PlayerInfo :=
  calls.foldl Call.seat none

theorem seated_snoc (calls : List Call) (call : Call) :
    seated (calls ++ [call]) = call.seat (seated calls) := by
  rw [seated, List.foldl_append]
  rfl

/-- A seat was inserted by a call. -/
theorem mem_of_seated {calls : List Call} {info : PlayerInfo} (h : seated calls = some info) :
    ∃ maxPlayers, Call.tryInsert info maxPlayers (.ok ()) ∈ calls := by
  induction calls using List.reverseRecOn with
  | nil => cases h
  | append_singleton calls call ih =>
      rw [seated_snoc] at h
      unfold Call.seat at h
      split at h
      · rename_i info' maxPlayers
        rw [Option.some.inj h]
        exact ⟨maxPlayers, List.mem_append_right _ List.mem_cons_self⟩
      · cases h
      · obtain ⟨maxPlayers, hmem⟩ := ih h
        exact ⟨maxPlayers, List.mem_append_left _ hmem⟩

/-- What a call can do to the registry and to the seat of its task. -/
theorem Call.trichotomy (call : Call) :
    (∃ info maxPlayers, call = .tryInsert info maxPlayers (.ok ())) ∨
      (∃ uuid removed, call = .remove uuid removed) ∨
      ((∀ r r', call.Acts r r' → r' = r) ∧ ∀ seat, call.seat seat = seat) := by
  cases call with
  | tryInsert info maxPlayers result =>
      cases result with
      | ok _ => exact .inl ⟨info, maxPlayers, rfl⟩
      | error why =>
          exact .inr (.inr ⟨fun _ _ h => PlayerRegistry.tryInsert_error h, fun _ => rfl⟩)
  | remove uuid removed => exact .inr (.inl ⟨uuid, removed, rfl⟩)
  | count _ => exact .inr (.inr ⟨fun _ _ h => h.2, fun _ => rfl⟩)
  | sampleNames _ _ => exact .inr (.inr ⟨fun _ _ h => h.2, fun _ => rfl⟩)
  | _ => exact .inr (.inr ⟨fun _ _ h => h, fun _ => rfl⟩)

namespace Point

/-- The points between a successful `try_insert` and its `remove`. -/
def seat : Point → Option Hello
  | brand hello | selectKnownPacks hello | configuration hello | refuseRegistry hello
  | remove hello _ => some hello
  | run | refuseVersion _ | status | statusCount | statusSample _ | statusJson _ _
  | statusRespond _ | statusPong _ | login | refuseOnline | setCompression _ _
  | enableCompression _ _ | loginFinished _ | loginAcknowledged _ | tryInsert _ | refuseLogin _
  | ended _ => none

variable {ctx : Context} {addr : SocketAddr} {point next : Point} {call : Call}
  {calls : List Call}

/-- The entry of the player a task introduces. -/
def entry (ctx : Context) (addr : SocketAddr) (hello : Hello) : PlayerInfo where
  uuid := offlineUuid ctx.md5 hello.name
  name := hello.name
  addr := addr

theorem seat_orEnd {α : Type} {result : Except ConnError α} {f : α → Point}
    (h : ∀ a, (f a).seat = none) : (orEnd result f).seat = none :=
  orEnd_rule (P := fun point => point.seat = none) (fun a _ => h a) fun _ => rfl

theorem seat_orRemove {α : Type} {hello : Hello} {result : Except ConnError α} {f : α → Point}
    (h : ∀ a, (f a).seat = some hello) : (orRemove hello result f).seat = some hello :=
  orRemove_rule (P := fun point => point.seat = some hello) (fun a _ => h a) fun _ => rfl

theorem seat_afterIntention (intention : Intention) : (afterIntention intention).seat = none := by
  unfold afterIntention
  split
  · rfl
  · split <;> rfl
  · split <;> rfl

theorem seat_afterHello (config : ServerConfig) (hello : Hello) :
    (afterHello config hello).seat = none := by
  unfold afterHello
  split
  · rfl
  · split <;> rfl

/-- A step changes a task's seat as its call says. -/
theorem seat_step (h : Step ctx addr point call next) :
    next.seat.map (entry ctx addr) = call.seat (point.seat.map (entry ctx addr)) := by
  cases point with
  | run =>
      cases h
      exact congrArg (Option.map _) (seat_orEnd seat_afterIntention)
  | login =>
      cases h
      exact congrArg (Option.map _) (seat_orEnd (seat_afterHello ctx.config))
  | status =>
      cases h with
      | read result =>
          dsimp only
          split
          · rfl
          · exact congrArg (Option.map _) (seat_orEnd (by rintro (_ | payload) <;> rfl))
  | tryInsert hello =>
      cases h with
      | tryInsert result => cases result <;> rfl
  | loginAcknowledged hello | statusRespond json | refuseOnline | setCompression hello threshold
  | loginFinished hello | refuseLogin why =>
      cases h
      exact congrArg (Option.map _) (seat_orEnd fun _ => rfl)
  | configuration hello =>
      cases h
      exact congrArg (Option.map _) (seat_orRemove (by rintro (_ | _ | _) <;> rfl))
  | brand hello | selectKnownPacks hello | refuseRegistry hello =>
      cases h
      exact congrArg (Option.map _) (seat_orRemove fun _ => rfl)
  | refuseVersion | statusCount | statusSample | statusJson | statusPong | enableCompression
  | remove =>
      cases h
      rfl
  | ended outcome => cases h

theorem seated_of_run (hrun : Run (Step ctx addr) run calls point) :
    seated calls = point.seat.map (entry ctx addr) := by
  refine hrun.invariant_labels (I := fun calls point =>
    seated calls = point.seat.map (entry ctx addr)) rfl ?_
  intro done a call b ih hstep
  rw [seated_snoc, ih, seat_step hstep]

/-- Whose seat it is shows in what the task has heard. -/
theorem Heard.of_seat {packets : List Bytes} {hello : Hello} (h : point.Heard ctx packets)
    (hseat : point.seat = some hello) :
    ∃ first second rest, packets = first :: second :: rest ∧
      Introduced ctx first second hello := by
  cases point with
  | brand hello' | selectKnownPacks hello' | configuration hello' | refuseRegistry hello'
  | remove hello' outcome =>
      obtain rfl := Option.some.inj hseat
      exact h
  | _ => cases hseat

/-- A player once inserted is still seated, or the task has ended and removed them. -/
def Keeps (ctx : Context) (addr : SocketAddr) (calls : List Call) (point : Point) : Prop :=
  ∀ info maxPlayers, Call.tryInsert info maxPlayers (.ok ()) ∈ calls →
    point.seat.map (entry ctx addr) = some info ∨
      (∃ outcome, point = ended outcome) ∧ ∃ removed, Call.remove info.uuid removed ∈ calls

theorem Keeps.step (h : Keeps ctx addr calls point) (hstep : Step ctx addr point call next) :
    Keeps ctx addr (calls ++ [call]) next := by
  intro info maxPlayers hmem
  have hseat := seat_step hstep
  rcases List.mem_append.mp hmem with hold | hnew
  · rcases h info maxPlayers hold with hseated | ⟨⟨outcome, rfl⟩, -⟩
    · rcases call.trichotomy with ⟨info', max', rfl⟩ | ⟨uuid, removed, rfl⟩ | ⟨-, hquiet⟩
      · obtain ⟨hello, rfl, -⟩ := step_tryInsert hstep
        cases hseated
      · obtain ⟨hello, outcome, rfl, huuid, rfl⟩ := step_remove hstep
        obtain rfl := Option.some.inj hseated
        refine .inr ⟨⟨outcome, rfl⟩, removed, List.mem_append_right _ ?_⟩
        rw [huuid]
        exact List.mem_cons_self
      · rw [hquiet] at hseat
        exact .inl (hseat.trans hseated)
    · cases hstep
  · obtain rfl := List.mem_singleton.mp hnew
    exact .inl hseat

theorem keeps_of_run (hrun : Run (Step ctx addr) run calls point) : Keeps ctx addr calls point :=
  hrun.invariant_labels (I := Keeps ctx addr) (by intro info maxPlayers h; cases h)
    fun _ _ _ _ h hstep => h.step hstep

end Point

/-! ## The system -/

/-- The registry and the connections accepted so far, each with the address it came from. -/
abbrev System := Tasks SocketAddr Point PlayerRegistry

abbrev System.Event := Tasks.Event SocketAddr Call

namespace System

/-- A connection is accepted, or its task takes a step that acts on the registry. -/
abbrev Step (ctx : Context) : System → Event → System → Prop :=
  Tasks.Step Point.run (Point.Step ctx) Call.Acts

abbrev new : System := Tasks.initial PlayerRegistry.new

/-- The player a connection has inserted and not removed. -/
abbrev seat (events : List Event) (c : Nat) : Option PlayerInfo :=
  seated (Tasks.labels c events)

/-- The names under which an insertion was tried. -/
def namesTried (events : List Event) : Set String :=
  {name | ∃ c info maxPlayers result,
    Tasks.Event.act c (.tryInsert info maxPlayers result) ∈ events ∧ info.name = name}

variable {ctx : Context} {events : List Event} {s : System} {c : Nat} {info : PlayerInfo}

/-- The entry's name is the one in the connection's `Hello`, its address the peer's. -/
def IsOwn (ctx : Context) (events : List Event) (c : Nat) (info : PlayerInfo) : Prop :=
  ∃ addr first second rest hello, Tasks.Event.start c addr ∈ events ∧
    packetsRead (Tasks.labels c events) = first :: second :: rest ∧
    DecodesAs .login second hello ∧ info = Point.entry ctx addr hello

section Reached

variable (hrun : Run (Step ctx) new events s)

include hrun

/-- A seat belongs to a task that stands between its insertion and its removal. -/
theorem exists_of_seat (hseat : seat events c = some info) :
    ∃ addr point hello, s.task c = some (addr, point) ∧ point.seat = some hello ∧
      info = Point.entry ctx addr hello := by
  cases htask : s.task c with
  | none =>
      rw [seat, Tasks.labels_of_none hrun htask] at hseat
      cases hseat
  | some task =>
      obtain ⟨addr, point⟩ := task
      obtain ⟨-, hown⟩ := Tasks.project hrun htask
      rw [seat, Point.seated_of_run hown] at hseat
      obtain ⟨hello, hhello, rfl⟩ := Option.map_eq_some_iff.mp hseat
      exact ⟨addr, point, hello, rfl, hhello, rfl⟩

theorem isOwn_of_seat (hseat : seat events c = some info) : IsOwn ctx events c info := by
  obtain ⟨addr, point, hello, htask, hhello, rfl⟩ := exists_of_seat hrun hseat
  obtain ⟨hstart, hown⟩ := Tasks.project hrun htask
  obtain ⟨first, second, rest, hpackets, hintroduced⟩ :=
    (Point.heard_of_run hown).of_seat hhello
  exact ⟨addr, first, second, rest, hello, hstart, hpackets, hintroduced.2.1, rfl⟩

theorem uuid_of_seat (hseat : seat events c = some info) :
    info.uuid = offlineUuid ctx.md5 info.name := by
  obtain ⟨addr, point, hello, -, -, rfl⟩ := exists_of_seat hrun hseat
  rfl

theorem seat_of_task {addr : SocketAddr} {point : Point} (htask : s.task c = some (addr, point)) :
    seat events c = point.seat.map (Point.entry ctx addr) :=
  Point.seated_of_run (Tasks.project hrun htask).2

end Reached

theorem name_mem_of_seat (hseat : seat events c = some info) : info.name ∈ namesTried events := by
  obtain ⟨maxPlayers, hmem⟩ := mem_of_seated hseat
  exact ⟨c, info, maxPlayers, .ok (), Tasks.mem_labels.mp hmem, rfl⟩

theorem namesTried_append_left {later : List Event} :
    namesTried events ⊆ namesTried (events ++ later) := by
  rintro name ⟨c, info, maxPlayers, result, hmem, hname⟩
  exact ⟨c, info, maxPlayers, result, List.mem_append_left _ hmem, hname⟩

theorem seat_start {id : Nat} {addr : SocketAddr} :
    seat (events ++ [.start id addr]) c = seat events c := by
  rw [seat, Tasks.labels_start]

theorem seat_act_self {call : Call} :
    seat (events ++ [.act c call]) c = call.seat (seat events c) := by
  rw [seat, Tasks.labels_act_self, seated_snoc]

theorem seat_act_ne {id : Nat} {call : Call} (h : c ≠ id) :
    seat (events ++ [.act id call]) c = seat events c := by
  rw [seat, Tasks.labels_act_ne h]

/-- The registry holds the seats of the connections, whose names differ. -/
structure Inv (events : List Event) (r : PlayerRegistry) : Prop where
  entry_iff : ∀ uuid info, r.get uuid = some info ↔
    uuid = info.uuid ∧ ∃ c, seat events c = some info
  name_ne : ∀ c c' info info', seat events c = some info → seat events c' = some info' →
    info.name = info'.name → c = c'

theorem Inv.of_seat {events' : List Event} {r : PlayerRegistry} (h : Inv events r)
    (hseat : ∀ c, seat events' c = seat events c) : Inv events' r := by
  refine ⟨?_, ?_⟩
  · intro uuid info
    simp only [h.entry_iff, hseat]
  · intro c c' info info'
    rw [hseat, hseat]
    exact h.name_ne c c' info info'

/-- An insertion by a task without a seat, the name being as good as the key. -/
theorem Inv.insert {r r' : PlayerRegistry} (h : Inv events r) {maxPlayers : Nat}
    (hinsert : r.tryInsert info maxPlayers = (r', .ok ())) (hfree : seat events c = none)
    (hkey : ∀ c' info', seat events c' = some info' → info'.uuid = info.uuid →
      info'.name = info.name) :
    Inv (events ++ [.act c (.tryInsert info maxPlayers (.ok ()))]) r' := by
  obtain ⟨hname, hself, hothers⟩ := PlayerRegistry.tryInsert_ok hinsert
  have hseat : seat (events ++ [.act c (.tryInsert info maxPlayers (.ok ()))]) c = some info :=
    seat_act_self
  have hseats : ∀ c', c' ≠ c →
      seat (events ++ [.act c (.tryInsert info maxPlayers (.ok ()))]) c' = seat events c' :=
    fun c' hne => seat_act_ne hne
  have hnew : ∀ c' info', seat events c' = some info' → info'.name ≠ info.name := by
    intro c' info' hseat'
    exact hname info' (PlayerRegistry.mem_values_of_get ((h.entry_iff _ _).mpr ⟨rfl, c', hseat'⟩))
  refine ⟨?_, ?_⟩
  · intro uuid info'
    constructor
    · intro hget
      by_cases huuid : uuid = info.uuid
      · rw [huuid, hself] at hget
        obtain rfl := Option.some.inj hget
        exact ⟨huuid, c, hseat⟩
      · rw [hothers uuid huuid] at hget
        obtain ⟨hown, c', hseat'⟩ := (h.entry_iff _ _).mp hget
        refine ⟨hown, c', ?_⟩
        rwa [hseats c' (by rintro rfl; rw [hfree] at hseat'; cases hseat')]
    · rintro ⟨rfl, c', hseat'⟩
      by_cases hc : c' = c
      · rw [hc, hseat] at hseat'
        rwa [← Option.some.inj hseat']
      · rw [hseats c' hc] at hseat'
        rw [hothers _ fun huuid => hnew c' info' hseat' (hkey c' info' hseat' huuid)]
        exact (h.entry_iff _ _).mpr ⟨rfl, c', hseat'⟩
  · intro c₁ c₂ info₁ info₂ h₁ h₂ hsame
    by_cases hc₁ : c₁ = c
    · by_cases hc₂ : c₂ = c
      · rw [hc₁, hc₂]
      · rw [hc₁, hseat] at h₁
        rw [hseats c₂ hc₂] at h₂
        obtain rfl := Option.some.inj h₁
        exact absurd hsame.symm (hnew c₂ info₂ h₂)
    · rw [hseats c₁ hc₁] at h₁
      by_cases hc₂ : c₂ = c
      · rw [hc₂, hseat] at h₂
        obtain rfl := Option.some.inj h₂
        exact absurd hsame (hnew c₁ info₁ h₁)
      · rw [hseats c₂ hc₂] at h₂
        exact h.name_ne c₁ c₂ info₁ info₂ h₁ h₂ hsame

/-- A removal under the key of the task's own seat. -/
theorem Inv.remove {r r' : PlayerRegistry} (h : Inv events r) {removed : Option PlayerInfo}
    (hremove : r.remove info.uuid = (r', removed)) (hseat : seat events c = some info)
    (hkey : ∀ c' info', seat events c' = some info' → info'.uuid = info.uuid →
      info'.name = info.name) :
    Inv (events ++ [.act c (.remove info.uuid removed)]) r' := by
  obtain ⟨-, hgone, hothers⟩ := PlayerRegistry.remove_get hremove
  have hfree : seat (events ++ [.act c (.remove info.uuid removed)]) c = none := seat_act_self
  have hseats : ∀ c', c' ≠ c →
      seat (events ++ [.act c (.remove info.uuid removed)]) c' = seat events c' :=
    fun c' hne => seat_act_ne hne
  have hne : ∀ c' info', seat (events ++ [.act c (.remove info.uuid removed)]) c' = some info' →
      c' ≠ c ∧ seat events c' = some info' := by
    intro c' info' hseat'
    have hc : c' ≠ c := by
      rintro rfl
      rw [hfree] at hseat'
      cases hseat'
    exact ⟨hc, hseats c' hc ▸ hseat'⟩
  refine ⟨?_, ?_⟩
  · intro uuid info'
    constructor
    · intro hget
      by_cases huuid : uuid = info.uuid
      · rw [huuid, hgone] at hget
        cases hget
      · rw [hothers uuid huuid] at hget
        obtain ⟨hown, c', hseat'⟩ := (h.entry_iff _ _).mp hget
        refine ⟨hown, c', ?_⟩
        rw [hseats c']
        · exact hseat'
        · rintro rfl
          rw [hseat] at hseat'
          exact huuid (hown.trans (congrArg _ (Option.some.inj hseat').symm))
    · rintro ⟨rfl, c', hseat'⟩
      obtain ⟨hc, hbefore⟩ := hne c' info' hseat'
      rw [hothers]
      · exact (h.entry_iff _ _).mpr ⟨rfl, c', hbefore⟩
      · intro huuid
        exact hc (h.name_ne c' c info' info hbefore hseat (hkey c' info' hbefore huuid))
  · intro c₁ c₂ info₁ info₂ h₁ h₂
    exact h.name_ne c₁ c₂ info₁ info₂ (hne c₁ info₁ h₁).2 (hne c₂ info₂ h₂).2

/-- The run lemma: `names` is any set on which the identifiers are distinct and that has
every name tried. -/
theorem Inv.of_run {names : Set String} (hinj : Set.InjOn (offlineUuid ctx.md5) names)
    (hrun : Run (Step ctx) new events s) (hnames : namesTried events ⊆ names) :
    Inv events s.shared := by
  induction hrun with
  | nil =>
      refine ⟨?_, ?_⟩
      · intro uuid info
        constructor
        · intro h
          cases h
        · rintro ⟨-, c, hseat⟩
          cases hseat
      · intro c c' info info' hseat
        cases hseat
  | @snoc done t u event hbefore hlast ih =>
      have hinv := ih (namesTried_append_left.trans hnames)
      have hsub := namesTried_append_left.trans hnames
      cases hlast with
      | start hfree => exact hinv.of_seat fun c => seat_start
      | @act c addr point next call r' htask hstep hacts =>
          have hkey : ∀ info : PlayerInfo, info.uuid = offlineUuid ctx.md5 info.name →
              info.name ∈ names → ∀ c' info', seat done c' = some info' →
              info'.uuid = info.uuid → info'.name = info.name := by
            intro info huuid hmem c' info' hseat' hsame
            rw [huuid, uuid_of_seat hbefore hseat'] at hsame
            exact hinj (hsub (name_mem_of_seat hseat')) hmem hsame
          have hseat := seat_of_task hbefore htask
          rcases call.trichotomy with
            ⟨info, maxPlayers, rfl⟩ | ⟨uuid, removed, rfl⟩ | ⟨hsame, hquiet⟩
          · obtain ⟨hello, rfl, rfl, -⟩ := Point.step_tryInsert hstep
            refine hinv.insert hacts hseat (hkey _ rfl (hnames ?_))
            exact ⟨c, _, maxPlayers, .ok (), List.mem_append_right _ List.mem_cons_self, rfl⟩
          · obtain ⟨hello, outcome, rfl, rfl, -⟩ := Point.step_remove hstep
            have hown : seat done c = some (Point.entry ctx addr hello) := hseat
            refine Inv.remove hinv ?_ hown (hkey _ rfl (hsub (name_mem_of_seat hown)))
            exact hacts
          · rw [hsame _ _ hacts]
            refine hinv.of_seat fun c' => ?_
            by_cases hc : c' = c
            · rw [hc, seat_act_self, hquiet]
            · exact seat_act_ne hc

/-- Slots are neither leaked nor stolen. -/
structure SlotsKept (ctx : Context) (events : List Event) (s : System) : Prop where
  /-- The entries are those of the connections between their insertion and their removal. -/
  entry_iff : ∀ uuid info, s.shared.get uuid = some info ↔
    uuid = info.uuid ∧ ∃ c, seat events c = some info
  isOwn : ∀ c info, seat events c = some info → IsOwn ctx events c info
  name_ne : ∀ c c' info info', seat events c = some info → seat events c' = some info' →
    info.name = info'.name → c = c'
  /-- A removal takes the connection's own entry. -/
  removes_own : ∀ done later c uuid removed,
    events = done ++ Tasks.Event.act c (.remove uuid removed) :: later →
    ∃ info, seat done c = some info ∧ uuid = info.uuid ∧ removed = some info
  /-- A connection that inserted a player does not end before it has removed them. -/
  ended_removes : ∀ c addr outcome, s.task c = some (addr, .ended outcome) →
    ∀ info maxPlayers, Tasks.Event.act c (.tryInsert info maxPlayers (.ok ())) ∈ events →
      ∃ removed, Tasks.Event.act c (.remove info.uuid removed) ∈ events
  empty : (∀ c addr point, s.task c = some (addr, point) → ∃ outcome, point = .ended outcome) →
    s.shared = .new

theorem removes_own (hinj : Set.InjOn (offlineUuid ctx.md5) (namesTried events))
    (hrun : Run (Step ctx) new events s) {done later : List Event} {uuid : Uuid}
    {removed : Option PlayerInfo}
    (hevents : events = done ++ Tasks.Event.act c (.remove uuid removed) :: later) :
    ∃ info, seat done c = some info ∧ uuid = info.uuid ∧ removed = some info := by
  subst hevents
  obtain ⟨t, t', hbefore, hstep, -⟩ := hrun.step_at
  have hinv : Inv done t.shared := Inv.of_run hinj hbefore namesTried_append_left
  cases hstep with
  | @act _ addr point next _ r' htask hstep hacts =>
      obtain ⟨hello, outcome, rfl, rfl, -⟩ := Point.step_remove hstep
      have hseat : seat done c = some (Point.entry ctx addr hello) := seat_of_task hbefore htask
      refine ⟨_, hseat, rfl, ?_⟩
      rw [(PlayerRegistry.remove_get hacts).1]
      exact (hinv.entry_iff _ _).mpr ⟨rfl, c, hseat⟩

theorem empty_of_ended (hrun : Run (Step ctx) new events s)
    (hheld : ∀ uuid info, s.shared.get uuid = some info → ∃ c, seat events c = some info)
    (hended : ∀ c addr point, s.task c = some (addr, point) → ∃ outcome, point = .ended outcome) :
    s.shared = .new := by
  apply PlayerRegistry.eq_new_of_get
  intro uuid
  by_contra hsome
  obtain ⟨info, hget⟩ := Option.ne_none_iff_exists'.mp hsome
  obtain ⟨c, hseat⟩ := hheld uuid info hget
  obtain ⟨addr, point, hello, htask, hhello, -⟩ := exists_of_seat hrun hseat
  obtain ⟨outcome, rfl⟩ := hended c addr point htask
  cases hhello

/-- In every state any interleaving of any number of connections reaches, the slots are
kept, if the names in play have distinct identifiers. -/
theorem slots_kept (hinj : Set.InjOn (offlineUuid ctx.md5) (namesTried events))
    (hrun : Run (Step ctx) new events s) : SlotsKept ctx events s := by
  have hinv : Inv events s.shared := Inv.of_run hinj hrun subset_rfl
  refine ⟨hinv.entry_iff, fun c info => isOwn_of_seat hrun, hinv.name_ne, ?_, ?_,
    empty_of_ended hrun fun uuid info hget => ((hinv.entry_iff uuid info).mp hget).2⟩
  · intro done later c uuid removed hevents
    exact removes_own hinj hrun hevents
  · intro c addr outcome htask info maxPlayers hmem
    have hkeeps := Point.keeps_of_run (Tasks.project hrun htask).2
    rcases hkeeps info maxPlayers (Tasks.mem_labels.mpr hmem) with hseated | ⟨-, removed, hremoved⟩
    · cases hseated
    · exact ⟨removed, Tasks.mem_labels.mp hremoved⟩

/-- A connection breaks before its client is configured, and its player is removed. -/
theorem run_breaks {addr : SocketAddr} {hello : Hello}
    (htask : s.task c = some (addr, .brand hello)) :
    Run (Step ctx) s
      [.act c (.send (.pluginMessage (PluginMessage.brand serverBrand)) (.error .closed)),
        .act c (.remove (offlineUuid ctx.md5 hello.name)
          (s.shared.remove (offlineUuid ctx.md5 hello.name)).2)]
      ⟨(s.shared.remove (offlineUuid ctx.md5 hello.name)).1,
        Function.update s.task c (some (addr, .ended (.error .closed)))⟩ := by
  have hbreak : Step ctx s
      (.act c (.send (.pluginMessage (PluginMessage.brand serverBrand)) (.error .closed)))
      ⟨s.shared, Function.update s.task c (some (addr, .remove hello (.error .closed)))⟩ :=
    Tasks.Step.act htask (Action.Step.send _) rfl
  have hremove : Step ctx
      ⟨s.shared, Function.update s.task c (some (addr, .remove hello (.error .closed)))⟩
      (.act c (.remove (offlineUuid ctx.md5 hello.name)
        (s.shared.remove (offlineUuid ctx.md5 hello.name)).2))
      ⟨(s.shared.remove (offlineUuid ctx.md5 hello.name)).1, _⟩ :=
    Tasks.Step.act (Function.update_self ..) (Action.Step.remove _) rfl
  rw [Function.update_idem] at hremove
  exact (Run.single hbreak).snoc hremove

/-- A connection is accepted and `Notch` logs in. -/
abbrev notchEvents : List Event :=
  [.start 0 notchAddr] ++ notchCalls.map (.act 0) ++ [.act 0 (.tryInsert notch 20 (.ok ()))]

abbrev aliceAddr : SocketAddr := ⟨.v4 0x7F000001, 50002⟩

abbrev alice : PlayerInfo where
  uuid := 0x40f5db53a47a33eeb1f6db0e20deded4
  name := "alice"
  addr := aliceAddr

abbrev aliceCalls : List Call :=
  loginCalls notchContext [0, 136, 6, 9, 108, 111, 99, 97, 108, 104, 111, 115, 116, 99, 221, 2]
    [0, 5, 97, 108, 105, 99, 101, 0, 0, 0, 0, 0, 0, 0, 0, 0, 0, 0, 0, 0, 0, 0, 0] [3]
    ⟨"alice", 0⟩ 256

/-- `alice` logs in. -/
abbrev aliceEvents : List Event :=
  [.start 1 aliceAddr] ++ aliceCalls.map (.act 1) ++ [.act 1 (.tryInsert alice 20 (.ok ()))]

theorem alice_run : Run (Point.Step notchContext aliceAddr) .run
    (aliceCalls ++ [.tryInsert alice 20 (.ok ())]) (.brand ⟨"alice", 0⟩) := by
  have hintroduced : Introduced notchContext
      [0, 136, 6, 9, 108, 111, 99, 97, 108, 104, 111, 115, 116, 99, 221, 2]
      [0, 5, 97, 108, 105, 99, 101, 0, 0, 0, 0, 0, 0, 0, 0, 0, 0, 0, 0, 0, 0, 0, 0]
      ⟨"alice", 0⟩ :=
    ⟨⟨⟨776, "localhost", 25565, .login⟩, ⟨_, rfl, rfl⟩, .inl rfl, rfl⟩, ⟨_, rfl, rfl⟩, rfl⟩
  have hinsert : Point.Step notchContext aliceAddr (.tryInsert ⟨"alice", 0⟩)
      (.tryInsert alice 20 (.ok ())) (.brand ⟨"alice", 0⟩) := Action.Step.tryInsert _
  exact (login_run hintroduced ⟨_, rfl, rfl⟩ rfl).snoc hinsert

abbrev aliceJoined : System where
  shared := (PlayerRegistry.new.tryInsert alice 20).1
  task := Function.update new.task 1 (some (aliceAddr, .brand ⟨"alice", 0⟩))

/-- `alice` and `Notch` have logged in. -/
abbrev pairJoined : System where
  shared := (aliceJoined.shared.tryInsert notch 20).1
  task := Function.update aliceJoined.task 0 (some (notchAddr, .brand ⟨"Notch", 0⟩))

theorem pair_joined : Run (Step notchContext) new (aliceEvents ++ notchEvents) pairJoined := by
  have halice : Run (Step notchContext) new aliceEvents aliceJoined :=
    Tasks.run_started rfl alice_run (by simp [loginCalls, Call.Acts]) rfl
  have hnotch : Run (Step notchContext) aliceJoined notchEvents pairJoined :=
    Tasks.run_started rfl notch_run (by simp [Call.Acts]) rfl
  exact halice.trans hnotch

/-- The connection of `alice` breaks. -/
abbrev aliceLeaves : List Event :=
  [.act 1 (.send (.pluginMessage (PluginMessage.brand serverBrand)) (.error .closed)),
    .act 1 (.remove alice.uuid (some alice))]

abbrev pairEvents : List Event := aliceEvents ++ notchEvents ++ aliceLeaves

/-- `Notch` has stayed. -/
abbrev notchStayed : System where
  shared := (pairJoined.shared.remove alice.uuid).1
  task := Function.update pairJoined.task 1 (some (aliceAddr, .ended (.error .closed)))

theorem alice_leaves : Run (Step notchContext) pairJoined aliceLeaves notchStayed := by
  have hrun : Run (Step notchContext) pairJoined _ _ :=
    run_breaks (rfl : pairJoined.task 1 = some (aliceAddr, .brand ⟨"alice", 0⟩))
  have huuid : offlineUuid notchContext.md5 "alice" = alice.uuid := by decide
  rw [huuid] at hrun
  exact hrun

theorem injOn_pair : Set.InjOn (offlineUuid notchContext.md5) {"alice", "Notch"} := by
  have hne : offlineUuid notchContext.md5 "alice" ≠ offlineUuid notchContext.md5 "Notch" := by
    decide
  rintro _ (rfl | rfl) _ (rfl | rfl) h
  · rfl
  · exact absurd h hne
  · exact absurd h hne.symm
  · rfl

theorem namesTried_pair : namesTried pairEvents ⊆ {"alice", "Notch"} := by
  rintro name ⟨c, info, maxPlayers, result, hmem, rfl⟩
  obtain ⟨-, rfl, -, -⟩ | ⟨-, rfl, -, -⟩ :
      (c = 1 ∧ info = alice ∧ maxPlayers = 20 ∧ result = .ok ()) ∨
        (c = 0 ∧ info = notch ∧ maxPlayers = 20 ∧ result = .ok ()) := by
    simpa [pairEvents, loginCalls] using hmem
  · exact .inl rfl
  · exact .inr rfl

theorem slots_kept_pair : ∃ s : System, Run (Step notchContext) new pairEvents s ∧
    SlotsKept notchContext pairEvents s ∧ s.shared.get notch.uuid = some notch ∧
    s.shared.get alice.uuid = none := by
  have hrun := pair_joined.trans alice_leaves
  have hkept := slots_kept (injOn_pair.mono namesTried_pair) hrun
  exact ⟨_, hrun, hkept, (hkept.entry_iff _ _).mpr ⟨rfl, 0, rfl⟩, rfl⟩

end System

end Rukkit.Server
