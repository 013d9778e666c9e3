import TileWorld.Proofs.Client.Agreement

/-!
# What a client can make sense of

A client can make sense of a message if everybody of whom it speaks is in view when it comes, or,
when it says that somebody comes into view, if nobody with that public id is. The news of a tick
can be made sense of message by message (`Scene.follows_messages`), with one exception: the attack
of a being is told before the being comes into view, and then the next message tells of this. A
client with the right view can make sense of it: `Scene.Agrees.follows_diff`.
-/

namespace TileWorld

/-! ### Messages in their places -/

section

variable {α β : Type}

/-- `P` holds of everything in a list, with what comes before it and what comes after it. -/
def Throughout (P : List α → α → List α → Prop) (l : List α) : Prop :=
  ∀ before a after, l = before ++ a :: after → P before a after

variable {P Q : List α → α → List α → Prop} {l l' : List α}

theorem Throughout.imp (h : Throughout P l) (hPQ : ∀ {before a after}, P before a after →
    Q before a after) : Throughout Q l :=
  fun before a after heq => hPQ (h before a after heq)

theorem throughout_of_forall_mem (h : ∀ a ∈ l, ∀ before after, P before a after) :
    Throughout P l := by
  rintro before a after rfl
  exact h a (by simp) before after

theorem throughout_nil : Throughout P [] := by
  intro before a after heq
  simp at heq

theorem throughout_singleton {a : α} (h : P [] a []) : Throughout P [a] := by
  intro before a' after heq
  obtain ⟨rfl, rfl, rfl⟩ : before = [] ∧ a' = a ∧ after = [] := by
    rcases before with _ | ⟨b, before⟩ <;> simp_all
  exact h

/-- What is in the first of two lists has the second one after it, and what is in the second one has
the first before it. -/
theorem throughout_append (h : Throughout (fun before a after => P before a (after ++ l')) l)
    (h' : Throughout (fun before a after => P (l ++ before) a after) l') :
    Throughout P (l ++ l') := by
  intro before a after heq
  obtain ⟨between, rfl, htail⟩ | ⟨between, rfl, htail⟩ := List.append_eq_append_iff.mp heq
  · exact h' between a after htail
  · rcases between with _ | ⟨b, between⟩
    · have h' := h' [] a after htail.symm
      rwa [List.append_nil, List.append_nil] at h'
    · obtain ⟨rfl, rfl⟩ := List.cons.inj htail
      exact h before a between rfl

/-- What is in one of several lists has those before it before and those after it after. -/
theorem throughout_flatMap {l : List β} {f : β → List α}
    (h : ∀ l₁ b l₂, l = l₁ ++ b :: l₂ → Throughout (fun before a after =>
      P (l₁.flatMap f ++ before) a (after ++ l₂.flatMap f)) (f b)) :
    Throughout P (l.flatMap f) := by
  induction l generalizing P with
  | nil => exact throughout_nil
  | cons b l ih =>
    refine throughout_append (h [] b l rfl) (ih fun l₁ b' l₂ heq => ?_)
    have hrest := h (b :: l₁) b' l₂ (by rw [heq]; rfl)
    refine hrest.imp fun {before a after} hP => ?_
    rwa [List.flatMap_cons, List.append_assoc] at hP

end

/-! ### Making sense of a message -/

/-- A client can make sense of a message, or the message says that somebody attacked whom the next
message brings into view. -/
def Scene.Follows (s : Scene) (m : Message) (after : List Message) : Prop :=
  ∃ n, Notification.decode m.bytes = .ok n ∧
    (s.Expects n ∨ ∃ x m' rest appearance, n = .attack x ∧ after = m' :: rest ∧
      Notification.decode m'.bytes = .ok (.enter x appearance))

/-- What comes later makes no message harder to make sense of. -/
theorem Scene.Follows.append {s : Scene} {m : Message} {after : List Message}
    (h : s.Follows m after) (more : List Message) : s.Follows m (after ++ more) := by
  obtain ⟨n, hn, hexpects | ⟨x, m', rest, appearance, hx, rfl, hm'⟩⟩ := h
  · exact ⟨n, hn, .inl hexpects⟩
  · exact ⟨n, hn, .inr ⟨x, m', rest ++ more, appearance, hx, rfl, hm'⟩⟩

namespace Entity

variable {e viewer : Entity} {range : UInt16} {x : PublicId}

/-- The notice that a being attacked, if the viewer is to be told. -/
def attackNotices (e viewer : Entity) (range : UInt16) (x : PublicId) : List Message :=
  if e.attackIsSeenBy viewer range then [attackNotice x] else []

theorem attackNotices_of_not_isSeenBy (h : e.isSeenBy viewer range = false) :
    e.attackNotices viewer range x = [] := by
  simp [attackNotices, attackIsSeenBy, h]

/-- Hearing of an attack changes nothing about the view. -/
theorem foldl_receive_attackNotices (s : Scene) :
    (e.attackNotices viewer range x).foldl Scene.receive s = s :=
  foldl_receive_attack s _

/-- An attack can be told of to whom the attacker is in view, and to whom it comes into view next. -/
theorem follows_attackNotices {s : Scene} {after : List Message}
    (h : s.Shows x ∨ ∃ m rest appearance, after = m :: rest ∧
      Notification.decode m.bytes = .ok (.enter x appearance)) :
    Throughout (fun before m rest => (before.foldl Scene.receive s).Follows m (rest ++ after))
      (e.attackNotices viewer range x) := by
  rw [attackNotices]
  split
  · refine throughout_singleton ⟨_, Notification.decode_attackNotice x, ?_⟩
    obtain hshows | ⟨m, rest, appearance, rfl, hm⟩ := h
    · exact .inl hshows
    · exact .inr ⟨x, m, rest, appearance, rfl, rfl, hm⟩
  · exact throughout_nil

/-- The notices about a being whose name fits, in their order. -/
theorem notices_news (viewer : Entity) (range : UInt16) (hx : e.publicId = some x)
    (h : e.kind.NameFits) : ∃ m, e.enterNotice x = .ok m ∧
      (e.news viewer range).notices = e.attackNotices viewer range x ++
        match e.wasSeenBy viewer range, e.isSeenBy viewer range with
        | false, true => [m]
        | true, false => [leaveNotice x]
        | _, _ => [] := by
  obtain ⟨m, henter⟩ : ∃ m, e.enterNotice x = .ok m := ⟨_, enterNotice_eq_ok_iff.mpr ⟨h, rfl⟩⟩
  refine ⟨m, henter, ?_⟩
  rw [news, newsFor, hx]
  rcases e.wasSeenBy viewer range <;> rcases e.isSeenBy viewer range
  · exact (List.append_nil _).symm
  · simp only [henter]
    rfl
  · rfl
  · exact (List.append_nil _).symm

/-- If a being was in sight just when it is in view, the client can make sense of the notices about
it. -/
theorem follows_notices (hx : e.publicId = some x) (h : e.kind.NameFits) {s : Scene}
    (hsees : e.wasSeenBy viewer range = true ↔ s.Shows x) :
    Throughout (fun before m after => (before.foldl Scene.receive s).Follows m after)
      (e.news viewer range).notices := by
  obtain ⟨m, hm, heq⟩ := notices_news viewer range hx h
  rw [heq]
  rcases hwas : e.wasSeenBy viewer range <;> rcases his : e.isSeenBy viewer range <;>
    simp only [hwas, Bool.false_eq_true, false_iff, true_iff] at hsees
  · rw [attackNotices_of_not_isSeenBy his]
    exact throughout_nil
  · have hdecode := Notification.decode_enterNotice hm
    refine throughout_append (follows_attackNotices (.inr ⟨m, [], _, rfl, hdecode⟩)) ?_
    refine throughout_singleton ⟨_, hdecode, .inl ?_⟩
    rw [List.append_nil, foldl_receive_attackNotices]
    exact hsees
  · rw [attackNotices_of_not_isSeenBy his]
    exact throughout_singleton ⟨_, Notification.decode_leaveNotice x, .inl hsees⟩
  · exact throughout_append (follows_attackNotices (.inl hsees)) throughout_nil

end Entity

/-! ### Making sense of the news -/

namespace Scene

variable {viewer : Entity} {range : UInt16} {l : List Entity}

/-- If just those beings were in sight that are in view, the client can make sense of all the news
about them. -/
theorem follows_messages (hid : ∀ e ∈ l, ∃ x, e.publicId = some x)
    (hfits : ∀ e ∈ l, e.kind.NameFits)
    (hdistinct : l.Pairwise fun e e' => e.publicId ≠ e'.publicId) {s : Scene}
    (hsees : ∀ e ∈ l, ∀ x, e.publicId = some x → (e.wasSeenBy viewer range = true ↔ s.Shows x)) :
    Throughout (fun before m after => (before.foldl receive s).Follows m after)
      (News.messages (l.map fun e => e.news viewer range)) := by
  have hact := actsOnKey_notices viewer range hid hfits
  rw [News.messages, List.flatMap_map]
  refine throughout_append (throughout_flatMap fun l₁ e l₂ heq => ?_) ?_
  · -- the notices that come before are about others
    have he : e ∈ l := by rw [heq]; simp
    have hbefore : ∀ e' ∈ l₁, e' ∈ l := fun e' he' => by rw [heq]; simp [he']
    obtain ⟨x, hx⟩ := hid e he
    have hothers : ∀ e' ∈ l₁, e'.publicId ≠ some x := fun e' he' => by
      rw [heq] at hdistinct
      rw [← hx]
      exact (List.pairwise_append.mp hdistinct).2.2 e' he' e List.mem_cons_self
    have hsame : (l₁.foldl (fun s e => (e.news viewer range).notices.foldl receive s) s).Shows x ↔
        s.Shows x := by
      have hlook := look_foldl_of_forall_ne (fun e' he' => hact e' (hbefore e' he')) hothers
        (s := s) trivial
      rw [Shows, Shows, Std.ExtTreeMap.mem_iff_isSome_getElem?,
        Std.ExtTreeMap.mem_iff_isSome_getElem?, hlook]
    have hnotices := Entity.follows_notices hx (hfits e he) ((hsees e he x hx).trans hsame.symm)
    refine hnotices.imp fun {before m after} hfollows => ?_
    rw [List.foldl_append, List.foldl_flatMap, List.append_assoc]
    exact hfollows.append _
  · split
    · exact throughout_nil
    · -- when the common notice comes, everybody in it is in view
      refine throughout_singleton ⟨_, Notification.decode_moveNotice _, .inl fun m hm => ?_⟩
      obtain ⟨news, hnews, hmove⟩ := List.mem_filterMap.mp hm
      obtain ⟨e, he, rfl⟩ := List.mem_map.mp hnews
      obtain ⟨x, hx⟩ := hid e he
      rw [Entity.move_news hx (hfits e he)] at hmove
      have hlook := look_foldl_of_mem hact hdistinct he hx (s := s) trivial
      rw [Entity.publicId_of_entryFor hmove, List.append_nil, List.foldl_flatMap, Shows,
        Std.ExtTreeMap.mem_iff_isSome_getElem?, hlook, Entity.reappear]
      have hwas := (hsees e he x hx).mp
      rw [Shows, Std.ExtTreeMap.mem_iff_isSome_getElem?] at hwas
      rw [Entity.entryFor] at hmove
      split at hmove
      · cases hmove
      · cases hmove
      · rfl
      · exact hwas ‹_›

section

open Outlook

variable {s : Scene} {g : Region}

/-- Whoever concerns a viewer with the right view was in sight just when it is in view. -/
theorem Agrees.shows_iff (hs : s.Agrees g (before viewer range)) (hg : g.Sound) {e : Entity}
    {x : PublicId} (he : e ∈ g.beingsConcerning viewer range) (hx : e.publicId = some x) :
    e.wasSeenBy viewer range = true ↔ s.Shows x := by
  have hk := hg.find?_of_concerning he
  have hbeing := hg.isBeing_of_concerning he
  rw [Shows, Std.ExtTreeMap.mem_iff_isSome_getElem?, Option.isSome_iff_exists]
  constructor
  · intro hsees
    obtain ⟨b, hb, -⟩ := hs.shown hk hbeing hx hsees
    exact ⟨b, hb⟩
  · rintro ⟨b, hb⟩
    obtain ⟨k, e', hk', -, hx', hsees⟩ := hs.hidden hb
    obtain rfl := hg.numbered.eq_of_publicId hk' hk (hx'.trans hx.symm)
    exact hsees

/-- Whoever had the right view when the tick began can make sense of the news of the tick. -/
theorem Agrees.follows_diff (hs : s.Agrees g (before viewer range)) (hg : g.Sound)
    (hnames : ∀ {k e}, g.find? k = some e → e.kind.NameFits) :
    ∃ ms, g.diff viewer range = .ok ms ∧
      Throughout (fun before m after => (before.foldl receive s).Follows m after) ms := by
  have hfits : ∀ e ∈ g.beingsConcerning viewer range, e.kind.NameFits := fun e he =>
    hnames (hg.find?_of_concerning he)
  refine ⟨_, Region.diff_eq_ok hfits, ?_⟩
  exact follows_messages (fun e he => hg.exists_publicId_of_concerning he) hfits
    (hg.distinct_concerning viewer range) fun e he x hx => hs.shows_iff hg he hx

end

end Scene

end TileWorld
