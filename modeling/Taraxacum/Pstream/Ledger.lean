import Taraxacum.Pstream.Runs

open json memory program Program Function

namespace taraxacum.pstream

/-- The octets taken to be written since the child's input was last connected. -/
def accept (accepted : Bytes) : Op × Ret → Bytes
  | (.openCommand mode, .flag true) => if mode.pstdin then [] else accepted
  | (.sputc c, .octet (some _)) => accepted ++ [c]
  | (.sputn s, .count n) => accepted ++ s.take n.toNat
  | _ => accepted

def accepted (calls : List (Op × Ret)) : Bytes := calls.foldl accept []

/-- What has been given to the caller of each of the two sources since they were last connected,
    less what has been put back, and which of them is read. -/
structure Consumed where
  source : buf_read_src
  octets : buf_read_src → Bytes

def Consumed.onActive (c : Consumed) (f : Bytes → Bytes) : Consumed :=
  { c with octets := update c.octets c.source (f (c.octets c.source)) }

def consume (c : Consumed) : Op × Ret → Consumed
  | (.openCommand mode, .flag true) =>
    ⟨if mode.pstdout then .rsrc_out else if mode.pstderr then .rsrc_err else c.source, fun _ => []⟩
  | (.read_err readerr, .flag true) => { c with source := if readerr then .rsrc_err else .rsrc_out }
  | (.sbumpc, .octet (some d)) => c.onActive fun s => s ++ [d]
  | (.sgetn _, .octets s') => c.onActive fun s => s ++ s'
  | (.sungetc, .octet (some _)) => c.onActive List.dropLast
  | _ => c

def consumed (calls : List (Op × Ret)) : Consumed := calls.foldl consume ⟨.rsrc_out, fun _ => []⟩

namespace Queues

/-- The sources, and what has come from them, are the same. -/
structure KeepsIn (q q' : Queues) : Prop where
  source : q'.source = q.source
  contents : q'.contents = q.contents
  rpipe : q'.rpipe = q.rpipe
  received : q'.received = q.received
  fresh : q'.fresh = q.fresh

/-- What is to be written, and what has been, is the same. -/
structure KeepsOut (q q' : Queues) : Prop where
  wpipe : q'.wpipe = q.wpipe
  pending : q'.pending = q.pending
  written : q'.written = q.written
  fresh : q'.fresh = q.fresh

/-- What has been written and what is pending is what was accepted, in that order. -/
def Written (q : Queues) (acc : Bytes) : Prop := ∀ fd, q.wpipe = some fd → q.written fd ++ q.pending = acc

/-- What has come from a source is what was consumed and what comes next, in that order. The last of
    what was consumed can be put back. -/
structure Read (q : Queues) (c : Consumed) : Prop where
  source : c.source = q.source
  received : ∀ src fd, q.rpipe src = some fd → q.received fd = c.octets src ++ (q.contents src).ahead
  before : ∀ src, q.rpipe src ≠ none → (q.contents src).before <:+ c.octets src

/-- No descriptor is that of both sources. -/
def Distinct (q : Queues) : Prop := ∀ fd, q.rpipe q.source = some fd → q.rpipe q.source.other ≠ some fd

section
variable {q q' : Queues} {acc : Bytes} {c : Consumed}

theorem KeepsIn.refl (q : Queues) : q.KeepsIn q := ⟨rfl, rfl, rfl, rfl, rfl⟩
theorem KeepsOut.refl (q : Queues) : q.KeepsOut q := ⟨rfl, rfl, rfl, rfl⟩

/-- The put area is no concern of the books of what is read. -/
theorem keepsIn_pending (q : Queues) (pending : Bytes) : q.KeepsIn { q with pending } :=
  ⟨rfl, rfl, rfl, rfl, rfl⟩

/-- What leaves the books of reading alone twice leaves them alone. -/
theorem KeepsIn.trans {q'' : Queues} (h : q.KeepsIn q') (h' : q'.KeepsIn q'') : q.KeepsIn q'' :=
  ⟨h'.source.trans h.source, h'.contents.trans h.contents, h'.rpipe.trans h.rpipe, h'.received.trans h.received,
    h'.fresh.trans h.fresh⟩

/-- What leaves the books of writing alone twice leaves them alone. -/
theorem KeepsOut.trans {q'' : Queues} (h : q.KeepsOut q') (h' : q'.KeepsOut q'') : q.KeepsOut q'' :=
  ⟨h'.wpipe.trans h.wpipe, h'.pending.trans h.pending, h'.written.trans h.written, h'.fresh.trans h.fresh⟩

/-- The books of writing stand through all that only reads. -/
theorem Written.frame (hq : q.Written acc) (h : q.KeepsOut q') : q'.Written acc := by
  intro fd hfd
  rw [h.written, h.pending]
  exact hq fd (h.wpipe ▸ hfd)

/-- The books of reading stand through all that only writes. -/
theorem Read.frame (hq : q.Read c) (h : q.KeepsIn q') : q'.Read c where
  source := hq.source.trans h.source.symm
  received := by rw [h.rpipe, h.received, h.contents]; exact hq.received
  before := by rw [h.rpipe, h.contents]; exact hq.before

/- What is written. -/

/-- Octets put into the area are entered in the books when they are taken. -/
theorem Written.push (hq : q.Written acc) (s : Bytes) :
    Queues.Written { q with pending := q.pending ++ s } (acc ++ s) := by
  intro fd hfd
  rw [← hq fd hfd, List.append_assoc]

/-- Emptying the put area reads nothing. -/
theorem Empties.keepsIn {ok : Bool} (hempties : q.Empties ok q') : q.KeepsIn q' := by
  cases hempties <;> exact ⟨rfl, rfl, rfl, rfl, rfl⟩

/-- Emptying moves octets from the area to the pipe, and the books see the two as one. -/
theorem Empties.accounts {ok : Bool} (hempties : q.Empties ok q') (hq : q.Written acc) : q'.Written acc := by
  cases hempties with
  | nothing => exact hq
  | @written fd bs rest hfd hpending _ =>
    intro fd' hfd'
    obtain rfl := Option.some.inj (hfd.symm.trans hfd')
    change update q.written fd (q.written fd ++ bs) fd ++ rest = acc
    rw [← hq _ hfd, hpending, update_self, List.append_assoc]

/-- Putting an octet reads nothing. -/
theorem Puts.keepsIn {d : UInt8} {r : int_type} (hputs : q.Puts d r q') : q.KeepsIn q' := by
  cases hputs with
  | room => exact keepsIn_pending _ _
  | emptied hempties => exact hempties.keepsIn.trans (keepsIn_pending _ _)
  | full => exact .refl _

/-- An octet that was taken is entered, and one that was refused is not. -/
theorem Puts.accounts {d : UInt8} {r : int_type} (hputs : q.Puts d r q') (hq : q.Written acc) :
    q'.Written (accept acc (.sputc d, .octet r)) := by
  cases hputs with
  | room => exact hq.push [d]
  | emptied hempties => exact (hempties.accounts hq).push [d]
  | full => exact hq

/-- Putting many octets reads nothing. -/
theorem PutsAll.keepsIn {s : Bytes} {n : Nat} (hputs : q.PutsAll s n q') : q.KeepsIn q' := by
  induction hputs with
  | stopped => exact .refl _
  | room hrest ih => exact (keepsIn_pending _ _).trans ih
  | emptied hempties hrest ih => exact hempties.keepsIn.trans ih

/-- Of many octets those are entered that were taken, in their order. -/
theorem PutsAll.accounts {s : Bytes} {n : Nat} (hputs : q.PutsAll s n q') (hq : q.Written acc) :
    q'.Written (acc ++ s.take n) := by
  induction hputs generalizing acc with
  | stopped =>
    rw [List.take_zero, List.append_nil]
    exact hq
  | room hrest ih =>
    have hall := ih (hq.push _)
    rwa [List.append_assoc, ← List.take_length_add_append] at hall
  | emptied hempties hrest ih => exact ih (hempties.accounts hq)

/-- Noticing that the child has exited reads nothing. -/
theorem Notices.keepsIn {b : Bool} (hnotices : q.Notices b q') : q.KeepsIn q' := by
  cases hnotices <;> exact ⟨rfl, rfl, rfl, rfl, rfl⟩

/-- Once the input is closed the books of writing have nothing to say. -/
theorem Written.ended (q : Queues) (acc : Bytes) : q.ended.Written acc := fun fd hfd => by cases hfd

/-- Noticing that the child has exited closes its input, or changes nothing. -/
theorem Notices.accounts {b : Bool} (hnotices : q.Notices b q') (hq : q.Written acc) : q'.Written acc := by
  cases hnotices with
  | same b => exact hq
  | exited => exact .ended q acc

/-- `sync` reads nothing. -/
theorem Syncs.keepsIn {b : Bool} (hsyncs : q.Syncs b q') : q.KeepsIn q' := by
  cases hsyncs with
  | exited hnotices => exact hnotices.keepsIn
  | running hempties => exact hempties.keepsIn

/-- `sync` empties the area, and may notice that the child has exited. -/
theorem Syncs.accounts {b : Bool} (hsyncs : q.Syncs b q') (hq : q.Written acc) : q'.Written acc := by
  cases hsyncs with
  | exited hnotices => exact hnotices.accounts hq
  | running hempties => exact hempties.accounts hq

/- What is read. -/

/-- Filling the area writes nothing. -/
theorem Fills.keepsOut {non_blocking b : Bool} (hfills : q.Fills non_blocking b q') : q.KeepsOut q' := by
  cases hfills <;> exact ⟨rfl, rfl, rfl, rfl⟩

/-- Filling the area changes neither the source nor the pipes. -/
theorem Fills.sources {non_blocking b : Bool} (hfills : q.Fills non_blocking b q') :
    q'.source = q.source ∧ q'.rpipe = q.rpipe := by
  cases hfills <;> exact ⟨rfl, rfl⟩

/-- What comes from the pipe stands behind what came before, when that has been consumed. -/
theorem Fills.accounts {non_blocking b : Bool} (hfills : q.Fills non_blocking b q') (hdistinct : q.Distinct)
    (hahead : q.active.ahead = []) (hq : q.Read c) : q'.Read c := by
  have hactive : (q.contents q.source).ahead = [] := hahead
  cases hfills with
  | failed =>
    refine ⟨hq.source, fun src fd hfd => ?_, fun src hsrc => ?_⟩
    · have hreceived := hq.received src fd hfd
      rcases q.source.eq_or_other src with rfl | rfl
      · rw [hactive] at hreceived
        exact hreceived.trans (congrArg (_ ++ ·.ahead) (update_self q.source Contents.none q.contents).symm)
      · exact hreceived.trans (congrArg (_ ++ ·.ahead)
          (update_of_ne q.source.other_ne Contents.none q.contents).symm)
    · rcases q.source.eq_or_other src with rfl | rfl
      · simp only [setActive, update_self]
        exact List.nil_suffix
      · simp only [setActive, update_of_ne q.source.other_ne]
        exact hq.before _ hsrc
  | @filled fd data hfd hlength hdata =>
    refine ⟨hq.source, fun src fd' hfd' => ?_, fun src hsrc => ?_⟩
    · have hreceived := hq.received src fd' hfd'
      rcases q.source.eq_or_other src with rfl | rfl
      · obtain rfl := Option.some.inj (hfd.symm.trans hfd')
        rw [hactive, List.append_nil] at hreceived
        simp only [fill, setActive, update_self, hreceived]
      · have hne : fd' ≠ fd := fun h => hdistinct fd hfd (h ▸ hfd')
        simp only [fill, setActive, update_of_ne q.source.other_ne, update_of_ne hne, hreceived]
    · rcases q.source.eq_or_other src with rfl | rfl
      · simp only [fill, setActive, update_self]
        exact (List.drop_suffix _ _).trans (hq.before _ hsrc)
      · simp only [fill, setActive, update_of_ne q.source.other_ne]
        exact hq.before _ hsrc

/-- Looking at the next octet writes nothing. -/
theorem Peeks.keepsOut {r : int_type} (hpeeks : q.Peeks r q') : q.KeepsOut q' := by
  cases hpeeks with
  | ahead hahead => exact .refl _
  | filled hahead hfills hnext => exact hfills.keepsOut
  | eof hahead hfills => exact hfills.keepsOut

theorem Peeks.sources {r : int_type} (hpeeks : q.Peeks r q') : q'.source = q.source ∧ q'.rpipe = q.rpipe := by
  cases hpeeks with
  | ahead hahead => exact ⟨rfl, rfl⟩
  | filled hahead hfills hnext => exact hfills.sources
  | eof hahead hfills => exact hfills.sources

/-- Looking may bring octets from the pipe into the area, and gives none of them away. -/
theorem Peeks.accounts {r : int_type} (hpeeks : q.Peeks r q') (hdistinct : q.Distinct)
    (hq : q.Read c) : q'.Read c := by
  cases hpeeks with
  | ahead hahead => exact hq
  | filled hahead hfills hnext => exact hfills.accounts hdistinct hahead hq
  | eof hahead hfills => exact hfills.accounts hdistinct hahead hq

/-- Only the contents of the source that is read change, and what was consumed of it. -/
theorem Read.setActive (hq : q.Read c) {contents : Contents} {f : Bytes → Bytes}
    (hreceived : q.rpipe q.source ≠ none →
      c.octets q.source ++ q.active.ahead = f (c.octets q.source) ++ contents.ahead)
    (hbefore : q.rpipe q.source ≠ none → contents.before <:+ f (c.octets q.source)) :
    (q.setActive contents).Read (c.onActive f) := by
  have hsource := hq.source
  refine ⟨hsource, fun src fd hfd => ?_, fun src hsrc => ?_⟩
  · have hold := hq.received src fd hfd
    rcases q.source.eq_or_other src with rfl | rfl
    · simp only [Queues.setActive, Consumed.onActive, hsource, update_self]
      refine hold.trans (hreceived fun hnone => ?_)
      rw [show q.rpipe q.source = some fd from hfd] at hnone
      cases hnone
    · simp only [Queues.setActive, Consumed.onActive, hsource, update_of_ne q.source.other_ne]
      exact hold
  · rcases q.source.eq_or_other src with rfl | rfl
    · simp only [Queues.setActive, Consumed.onActive, hsource, update_self]
      exact hbefore hsrc
    · simp only [Queues.setActive, Consumed.onActive, hsource, update_of_ne q.source.other_ne]
      exact hq.before _ hsrc

/-- Taking an octet writes nothing. -/
theorem Takes.keepsOut {r : int_type} (htakes : q.Takes r q') : q.KeepsOut q' := by
  cases htakes with
  | taken hpeeks =>
    obtain ⟨cs, hahead⟩ := hpeeks.ahead_eq
    rw [pass_eq hahead]
    exact hpeeks.keepsOut.trans ⟨rfl, rfl, rfl, rfl⟩
  | eof hpeeks => exact hpeeks.keepsOut

theorem Takes.sources {r : int_type} (htakes : q.Takes r q') : q'.source = q.source ∧ q'.rpipe = q.rpipe := by
  cases htakes with
  | taken hpeeks =>
    obtain ⟨cs, hahead⟩ := hpeeks.ahead_eq
    rw [pass_eq hahead]
    exact hpeeks.sources
  | eof hpeeks => exact hpeeks.sources

/-- An octet that is taken is entered for the source in use. -/
theorem Takes.accounts {r : int_type} (htakes : q.Takes r q') (hdistinct : q.Distinct) (hq : q.Read c) :
    q'.Read (consume c (.sbumpc, .octet r)) := by
  cases htakes with
  | eof hpeeks => exact hpeeks.accounts hdistinct hq
  | @taken d q₁ hpeeks =>
    obtain ⟨cs, hahead⟩ := hpeeks.ahead_eq
    have hq₁ := hpeeks.accounts hdistinct hq
    rw [pass_eq hahead]
    refine hq₁.setActive (f := fun s => s ++ [d]) (fun _ => ?_) fun hsrc => ?_
    · rw [hahead, List.append_assoc]
      rfl
    · obtain ⟨gone, hgone⟩ := hq₁.before _ hsrc
      exact ⟨gone, by rw [← hgone, ← List.append_assoc]; rfl⟩

/-- The two streams of a child are different descriptors as long as neither changes. -/
theorem Distinct.of_sources (hdistinct : q.Distinct) (hsources : q'.source = q.source ∧ q'.rpipe = q.rpipe) :
    q'.Distinct := by
  unfold Distinct
  rw [hsources.1, hsources.2]
  exact hdistinct

/-- An entry of no octets changes nothing. -/
theorem onActive_nil : (c.onActive fun s => s ++ []) = c := by
  rw [Consumed.onActive, List.append_nil, update_eq_self]

/-- Two entries for one source are one. -/
theorem onActive_append (c : Consumed) (s s' : Bytes) :
    ((c.onActive fun t => t ++ s).onActive fun t => t ++ s') = c.onActive fun t => t ++ (s ++ s') := by
  simp only [Consumed.onActive, update_self, update_idem, List.append_assoc]

/-- Taking many octets writes nothing. -/
theorem TakesAll.keepsOut {s : Bytes} (htakes : q.TakesAll s q') : q.KeepsOut q' := by
  induction htakes with
  | done => exact .refl _
  | eof htakes => exact htakes.keepsOut
  | more htakes hrest ih => exact htakes.keepsOut.trans ih

/-- Many octets that are taken are entered for the source in use, in their order. -/
theorem TakesAll.accounts {s : Bytes} (htakes : q.TakesAll s q') (hdistinct : q.Distinct) (hq : q.Read c) :
    q'.Read (c.onActive fun t => t ++ s) := by
  induction htakes generalizing c with
  | done =>
    rw [onActive_nil]
    exact hq
  | eof htakes =>
    rw [onActive_nil]
    exact htakes.accounts hdistinct hq
  | @more q q₁ q' d cs htakes hrest ih =>
    have hall := ih (hdistinct.of_sources htakes.sources) (htakes.accounts hdistinct hq)
    rw [consume, onActive_append] at hall
    exact hall

/-- Each operation keeps account of what is written. -/
theorem Step.written {op : Op} {r : Ret} (hstep : q.Step op r q')
    (hunwritten : ∀ fd, q.fresh ≤ fd → q.written fd = [])
    (hq : q.Written acc) : q'.Written (accept acc (op, r)) := by
  cases hstep with
  | @openCommand mode b q' hopens =>
    cases hopens with
    | not_opened hfresh => exact hq
    | @opened fresh source wpipe rpipe hfresh hclosed hwpipe hrpipe hstdin hsource =>
      intro fd hfd
      have hpipe : wpipe = some fd := hfd
      have hpending : q.pending = [] := by rw [← hclosed]; rfl
      have hon : mode.pstdin = true := by
        by_contra hoff
        rw [hstdin (Bool.eq_false_iff.mpr hoff)] at hpipe
        cases hpipe
      rw [accept, if_pos hon]
      change q.written fd ++ q.pending = []
      rw [hunwritten fd (hwpipe fd hfd), hpending]
      rfl
  | not_openFile => exact hq
  | close hsyncs => exact fun fd hfd => by cases hfd
  | kill => exact hq
  | killpg => exact hq
  | peof hsyncs => exact .ended _ _
  | switched hsrc hpipe => exact hq.frame ⟨rfl, rfl, rfl, rfl⟩
  | not_switched hpipe => exact hq
  | exited hnotices => exact hnotices.accounts hq
  | sgetc hpeeks => exact hq.frame hpeeks.keepsOut
  | sbumpc htakes => exact hq.frame htakes.keepsOut
  | sgetn htakes hlength => exact hq.frame htakes.keepsOut
  | sungetc hbefore => exact hq.frame ⟨rfl, rfl, rfl, rfl⟩
  | not_sungetc hbefore => exact hq
  | sputbackc hbefore => exact hq.frame ⟨rfl, rfl, rfl, rfl⟩
  | not_sputbackc hbefore => exact hq
  | available hahead => exact hq
  | filled hahead hfills => exact hq.frame hfills.keepsOut
  | not_filled hahead hfills => exact hq.frame hfills.keepsOut
  | sputc hputs => exact hputs.accounts hq
  | sputn hputs => exact hputs.accounts hq
  | pubsync hsyncs => exact hsyncs.accounts hq

/-- What has been written, and after it what may be written, is what was accepted. -/
theorem Written.begins (hq : q.Written acc) {fd : Nat} (hfd : q.wpipe = some fd) : q.written fd <+: acc :=
  ⟨q.pending, hq fd hfd⟩

/-- Emptying the area does not close the input. -/
theorem Empties.wpipe_eq {ok : Bool} (hempties : q.Empties ok q') : q'.wpipe = q.wpipe := by
  cases hempties <;> rfl

theorem Puts.wpipe_eq {d : UInt8} {r : int_type} (hputs : q.Puts d r q') : q'.wpipe = q.wpipe := by
  cases hputs with
  | room => rfl
  | emptied hempties => exact hempties.wpipe_eq
  | full => rfl

theorem PutsAll.wpipe_eq {s : Bytes} {n : Nat} (hputs : q.PutsAll s n q') : q'.wpipe = q.wpipe := by
  induction hputs with
  | stopped => rfl
  | room hrest ih => exact ih
  | emptied hempties hrest ih => exact ih.trans hempties.wpipe_eq

/-- Noticing that the child has exited writes nothing. -/
theorem Notices.written_eq {b : Bool} (hnotices : q.Notices b q') : q'.written = q.written := by
  cases hnotices <;> rfl

/-- Whatever `sync` could write is, with what was written before, a beginning of what was taken. -/
theorem Syncs.begins {b : Bool} (hsyncs : q.Syncs b q') (hq : q.Written acc) {fd : Nat}
    (hfd : q.wpipe = some fd) : q'.written fd <+: acc := by
  cases hsyncs with
  | exited hnotices =>
    rw [hnotices.written_eq]
    exact hq.begins hfd
  | running hempties => exact (hempties.accounts hq).begins (hempties.wpipe_eq.trans hfd)

/-- Whatever an operation does, it writes only what was accepted, from the beginning on. -/
theorem Step.begins {op : Op} {r : Ret} (hstep : q.Step op r q')
    (hunwritten : ∀ fd, q.fresh ≤ fd → q.written fd = []) (hq : q.Written acc) {fd : Nat}
    (hfd : q.wpipe = some fd) :
    q'.written fd <+: accept acc (op, r) := by
  have hq' := hstep.written hunwritten hq
  cases hstep with
  | openCommand hopens =>
    cases hopens with
    | not_opened hfresh => exact hq'.begins hfd
    | opened hfresh hclosed =>
      rw [← hclosed] at hfd
      cases hfd
  | not_openFile => exact hq'.begins hfd
  | close hsyncs => exact hsyncs.begins hq hfd
  | kill => exact hq'.begins hfd
  | killpg => exact hq'.begins hfd
  | peof hsyncs => exact hsyncs.begins hq hfd
  | switched hsrc hpipe => exact hq'.begins hfd
  | not_switched hpipe => exact hq'.begins hfd
  | exited hnotices =>
    rw [hnotices.written_eq]
    exact hq.begins hfd
  | sgetc hpeeks => exact hq'.begins (hpeeks.keepsOut.wpipe.trans hfd)
  | sbumpc htakes => exact hq'.begins (htakes.keepsOut.wpipe.trans hfd)
  | sgetn htakes hlength => exact hq'.begins (htakes.keepsOut.wpipe.trans hfd)
  | sungetc hbefore => exact hq'.begins hfd
  | not_sungetc hbefore => exact hq'.begins hfd
  | sputbackc hbefore => exact hq'.begins hfd
  | not_sputbackc hbefore => exact hq'.begins hfd
  | available hahead => exact hq'.begins hfd
  | filled hahead hfills => exact hq'.begins (hfills.keepsOut.wpipe.trans hfd)
  | not_filled hahead hfills => exact hq'.begins (hfills.keepsOut.wpipe.trans hfd)
  | sputc hputs => exact hq'.begins (hputs.wpipe_eq.trans hfd)
  | sputn hputs => exact hq'.begins (hputs.wpipe_eq.trans hfd)
  | pubsync hsyncs => exact hsyncs.begins hq hfd

/-- A pipe to a child that is connected no longer. The number of its descriptor is not used again. -/
structure Retired (q : Queues) (fd : Nat) (bs : Bytes) : Prop where
  below : fd < q.fresh
  wpipe : q.wpipe ≠ some fd
  written : q.written fd = bs

section
variable {fd : Nat} {bs : Bytes}

/-- A pipe that was given up is not written to by what only reads. -/
theorem Retired.frame (hq : q.Retired fd bs) (h : q.KeepsOut q') : q'.Retired fd bs where
  below := h.fresh ▸ hq.below
  wpipe := h.wpipe ▸ hq.wpipe
  written := h.written ▸ hq.written

theorem Retired.push (hq : q.Retired fd bs) (pending : Bytes) : Queues.Retired { q with pending } fd bs :=
  ⟨hq.below, hq.wpipe, hq.written⟩

theorem Retired.ended (hq : q.Retired fd bs) : q.ended.Retired fd bs :=
  ⟨hq.below, Option.some_ne_none fd |>.symm, hq.written⟩

/-- Emptying the area writes to the input of now, which is not the pipe that was given up. -/
theorem Empties.retired {ok : Bool} (hempties : q.Empties ok q') (hq : q.Retired fd bs) : q'.Retired fd bs := by
  cases hempties with
  | nothing => exact hq
  | written hfd hpending hbs =>
    refine ⟨hq.below, hq.wpipe, ?_⟩
    rename_i fd' bs' rest
    have hne : fd ≠ fd' := fun heq => hq.wpipe (by rw [heq]; exact hfd)
    exact (update_of_ne hne _ _).trans hq.written

theorem Puts.retired {d : UInt8} {r : int_type} (hputs : q.Puts d r q') (hq : q.Retired fd bs) :
    q'.Retired fd bs := by
  cases hputs with
  | room => exact hq.push _
  | emptied hempties => exact (hempties.retired hq).push _
  | full => exact hq

theorem PutsAll.retired {s : Bytes} {n : Nat} (hputs : q.PutsAll s n q') (hq : q.Retired fd bs) :
    q'.Retired fd bs := by
  induction hputs with
  | stopped => exact hq
  | room hrest ih => exact ih (hq.push _)
  | emptied hempties hrest ih => exact ih (hempties.retired hq)

theorem Notices.retired {b : Bool} (hnotices : q.Notices b q') (hq : q.Retired fd bs) : q'.Retired fd bs := by
  cases hnotices with
  | same => exact hq
  | exited => exact hq.ended

/-- `sync` writes nothing to a pipe that was given up. -/
theorem Syncs.retired {b : Bool} (hsyncs : q.Syncs b q') (hq : q.Retired fd bs) : q'.Retired fd bs := by
  cases hsyncs with
  | exited hnotices => exact hnotices.retired hq
  | running hempties => exact hempties.retired hq

/-- The numbers of descriptors are given out in their order. -/
theorem Step.fresh_le {op : Op} {r : Ret} (hstep : q.Step op r q') : q.fresh ≤ q'.fresh := by
  cases hstep with
  | openCommand hopens => cases hopens <;> assumption
  | close hsyncs => exact hsyncs.keepsIn.fresh.ge
  | peof hsyncs => exact hsyncs.keepsIn.fresh.ge
  | exited hnotices => exact hnotices.keepsIn.fresh.ge
  | sgetc hpeeks => exact hpeeks.keepsOut.fresh.ge
  | sbumpc htakes => exact htakes.keepsOut.fresh.ge
  | sgetn htakes hlength => exact htakes.keepsOut.fresh.ge
  | filled hahead hfills => exact hfills.keepsOut.fresh.ge
  | not_filled hahead hfills => exact hfills.keepsOut.fresh.ge
  | sputc hputs => exact hputs.keepsIn.fresh.ge
  | sputn hputs => exact hputs.keepsIn.fresh.ge
  | pubsync hsyncs => exact hsyncs.keepsIn.fresh.ge
  | _ => exact Nat.le_refl _

/-- No operation writes to a pipe that is connected no longer, nor connects it again. -/
theorem Step.retired {op : Op} {r : Ret} (hstep : q.Step op r q') (hq : q.Retired fd bs) :
    q'.Retired fd bs := by
  cases hstep with
  | openCommand hopens =>
    cases hopens with
    | not_opened hfresh => exact ⟨Nat.lt_of_lt_of_le hq.below hfresh, hq.wpipe, hq.written⟩
    | opened hfresh hclosed hwpipe =>
      refine ⟨Nat.lt_of_lt_of_le hq.below hfresh, fun hfd => ?_, hq.written⟩
      exact Nat.not_le_of_lt hq.below (hwpipe fd hfd)
  | not_openFile => exact hq
  | close hsyncs =>
    have hended := (hsyncs.retired hq).ended
    exact ⟨hended.below, hended.wpipe, hended.written⟩
  | kill => exact hq
  | killpg => exact hq
  | peof hsyncs => exact (hsyncs.retired hq).ended
  | switched hsrc hpipe => exact hq.frame ⟨rfl, rfl, rfl, rfl⟩
  | not_switched hpipe => exact hq
  | exited hnotices => exact hnotices.retired hq
  | sgetc hpeeks => exact hq.frame hpeeks.keepsOut
  | sbumpc htakes => exact hq.frame htakes.keepsOut
  | sgetn htakes hlength => exact hq.frame htakes.keepsOut
  | sungetc hbefore => exact hq.frame ⟨rfl, rfl, rfl, rfl⟩
  | not_sungetc hbefore => exact hq
  | sputbackc hbefore => exact hq.frame ⟨rfl, rfl, rfl, rfl⟩
  | not_sputbackc hbefore => exact hq
  | available hahead => exact hq
  | filled hahead hfills => exact hq.frame hfills.keepsOut
  | not_filled hahead hfills => exact hq.frame hfills.keepsOut
  | sputc hputs => exact hputs.retired hq
  | sputn hputs => exact hputs.retired hq
  | pubsync hsyncs => exact hsyncs.retired hq

end

/-- Each operation that does not put an octet back of the caller's choice keeps account of what is read. -/
theorem Step.read {op : Op} {r : Ret} (hstep : q.Step op r q') (hop : ∀ d, op ≠ .sputbackc d)
    (hunread : ∀ fd, q.fresh ≤ fd → q.received fd = []) (hdistinct : q.Distinct) (hq : q.Read c) :
    q'.Read (consume c (op, r)) := by
  cases hstep with
  | openCommand hopens =>
    cases hopens with
    | not_opened hfresh => exact ⟨hq.source, hq.received, hq.before⟩
    | opened hfresh hclosed hwpipe hrpipe hstdin hsource =>
      have hcontents : q.contents = fun _ => .none := by rw [← hclosed]; rfl
      refine ⟨?_, fun src fd hfd => ?_, fun src hsrc => ?_⟩
      · rw [hsource, consume, hq.source]
      · change q.received fd = [] ++ (q.contents src).ahead
        rw [hunread fd (hrpipe src fd hfd), hcontents]
        rfl
      · change (q.contents src).before <:+ []
        rw [hcontents]
        exact List.nil_suffix
  | not_openFile => exact hq
  | close hsyncs =>
    refine ⟨hq.source.trans hsyncs.keepsIn.source.symm, fun src fd hfd => ?_, fun src hsrc => absurd rfl hsrc⟩
    cases hfd
  | kill => exact hq
  | killpg => exact hq
  | peof hsyncs => exact (hq.frame hsyncs.keepsIn).frame ⟨rfl, rfl, rfl, rfl, rfl⟩
  | switched hsrc hpipe =>
    refine ⟨?_, hq.received, hq.before⟩
    rw [hsrc]
    rfl
  | not_switched hpipe => exact hq
  | exited hnotices => exact hq.frame hnotices.keepsIn
  | sgetc hpeeks => exact hpeeks.accounts hdistinct hq
  | sbumpc htakes => exact htakes.accounts hdistinct hq
  | sgetn htakes hlength => exact htakes.accounts hdistinct hq
  | @sungetc before d hbefore =>
    refine hq.setActive (f := List.dropLast) (fun hsrc => ?_) fun hsrc => ?_
    all_goals
      obtain ⟨gone, hgone⟩ := hq.before _ hsrc
      rw [show (q.contents q.source).before = before ++ [d] from hbefore, ← List.append_assoc] at hgone
      rw [← hgone, List.dropLast_concat]
    · rw [List.append_assoc]
      rfl
    · exact List.suffix_append gone before
  | not_sungetc hbefore => exact hq
  | sputbackc hbefore => exact absurd rfl (hop _)
  | not_sputbackc hbefore => exact absurd rfl (hop _)
  | available hahead => exact hq
  | filled hahead hfills => exact hfills.accounts hdistinct hahead hq
  | not_filled hahead hfills => exact hfills.accounts hdistinct hahead hq
  | sputc hputs => exact hq.frame hputs.keepsIn
  | sputn hputs => exact hq.frame hputs.keepsIn
  | pubsync hsyncs => exact hq.frame hsyncs.keepsIn

end

end Queues

section
variable {s t : Process} {contents : buf_read_src → Contents} {pending : Bytes} {k : Kernel}
    {calls : List (Op × Ret)}

/-- The two streams of a child are never the same descriptor. -/
theorem Process.Sound.distinct (hs : s.Sound contents pending) : (s.queues contents pending).Distinct := by
  have hnodup : s.buf.held.Nodup := hs.descriptors.perm.nodup_iff.mp hs.descriptors.nodup
  have hsources := (List.nodup_append.mp hnodup).2.1
  intro fd hfd hother
  change s.buf.rpipe_ s.buf.rsrc_ = some fd at hfd
  change s.buf.rpipe_ s.buf.rsrc_.other = some fd at hother
  cases hsource : s.buf.rsrc_ <;> rw [hsource] at hfd hother
  · rw [hfd, show s.buf.rpipe_ .rsrc_err = some fd from hother] at hsources
    simp at hsources
  · rw [hfd, show s.buf.rpipe_ .rsrc_out = some fd from hother] at hsources
    simp at hsources

/-- A run of the buffer is a run of its queues: what each step of them keeps holds all along. -/
theorem keeps_account {R : Op → Process → Prop} {J : List (Op × Ret) → Queues → Prop} {start : Process}
    (hR : ∀ op s, R op s → Ready op s)
    (hstart : start.Readable ∧ ∃ contents pending, start.Sound contents pending ∧
      J [] (start.queues contents pending))
    (hstep : ∀ calls s contents pending op r q', R op s → s.Sound contents pending →
      (s.queues contents pending).Step op r q' → J calls (s.queues contents pending) →
      J (calls ++ [(op, r)]) q')
    (hreach : program.Reaches perform R start calls t) :
    t.Readable ∧ ∃ contents pending, t.Sound contents pending ∧ J calls (t.queues contents pending) := by
  refine hreach.invariant (I := fun calls t => t.Readable ∧ ∃ contents pending, t.Sound contents pending ∧
    J calls (t.queues contents pending)) hstart ?_
  rintro calls s op ⟨hreadable, contents, pending, hs, hJ⟩ hready
  refine wp_mono ?_ (perform_spec hs hreadable (hR op s hready))
  rintro r u ⟨⟨hreadable', contents', pending', hs', hq⟩, -⟩
  exact ⟨hreadable', contents', pending', hs', hstep calls s contents pending op r _ hready hs hq hJ⟩

/-- What holds of the queues of a buffer that was never opened. -/
theorem started_keeps {J : Queues → Prop} (hstart : J ((started k).queues (fun _ => .none) [])) :
    (started k).Readable ∧ ∃ contents pending, (started k).Sound contents pending ∧
      J ((started k).queues contents pending) :=
  ⟨(started_closed k).readable, _, _, (started_closed k).sound, hstart⟩

/-- The books are kept call by call. -/
theorem accepted_append (calls : List (Op × Ret)) (call : Op × Ret) :
    accepted (calls ++ [call]) = accept (accepted calls) call := by
  rw [accepted, List.foldl_append]
  rfl

/-- In every run, however little each `write` takes, what was written and what stands in the area
    are together what was taken. -/
theorem accounts_written (hreach : program.Reaches perform Ready (started k) calls t) :
    t.Readable ∧ ∃ contents pending, t.Sound contents pending ∧
      (t.queues contents pending).Written (accepted calls) := by
  refine keeps_account (J := fun calls q => q.Written (accepted calls)) (fun _ _ => id)
    (started_keeps (J := fun q => q.Written []) fun fd hfd => (by cases hfd)) ?_ hreach
  intro calls s contents pending op r q' _ hs hstep hq
  rw [accepted_append]
  exact hstep.written hs.descriptors.unwritten hq

/-- What has been written to the child, and after it what stands in the put area, is what the buffer
    took from its callers: nothing is lost, written twice or out of order, however much of it each
    `write` takes. -/
theorem written_in_order (hreach : program.Reaches perform Ready (started k) calls t) {fd : Nat}
    (hfd : t.buf.wpipe_ = some fd) : ∃ n pending, t.buf.pbase.distance t.buf.pptr = some n ∧
      t.heap.loads t.buf.pbase n = some pending ∧ t.kernel.written fd ++ pending = accepted calls := by
  obtain ⟨-, contents, pending, hs, hq⟩ := accounts_written hreach
  refine ⟨pending.length, pending, hs.layout.pending.distances.1, ?_, hq fd hfd⟩
  rcases hs.layout.pending with ⟨-, hbase, -, -, rfl⟩ | ⟨b, -, hbase, -, -, -, -, hholds⟩ <;> rw [hbase]
  · rfl
  · exact hholds.loads

/-- One octet has been written, and one stands in the put area. -/
theorem written_in_order_partly : ∃ t, program.Reaches perform Ready (started obliging)
    [(.openCommand ⟨true, true, true⟩, .flag true), (.sputn [72, 105], .count 2), (.pubsync, .flag true)] t ∧
    t.kernel.written 1 = [72] ∧ ∃ n pending, t.buf.pbase.distance t.buf.pptr = some n ∧
      t.heap.loads t.buf.pbase n = some pending ∧ t.kernel.written 1 ++ pending = [72, 105] := by
  have hruns : (runs perform [.openCommand ⟨true, true, true⟩, .sputn [72, 105], .pubsync]
    (started obliging)).map
      (fun x => (x.1, x.2.buf.wpipe_, x.2.kernel.written 1)) =
        some ([.flag true, .count 2, .flag true], some 1, [72]) := by decide +kernel
  obtain ⟨⟨rs, t⟩, hruns, heq⟩ := Option.map_eq_some_iff.mp hruns
  obtain ⟨rfl, hrest⟩ := Prod.mk.inj heq
  obtain ⟨hpipe, hwritten⟩ := Prod.mk.inj hrest
  have hreach := program.Reaches.of_runs_cons obliging_ready (by simp [Ready]) hruns
  exact ⟨t, hreach, hwritten, written_in_order hreach hpipe⟩

/-- What has been written to a pipe that is connected no longer stays what it is, whatever is called. -/
theorem written_of_retired {s u : Process} {contents : buf_read_src → Contents} {pending : Bytes}
    (hs : s.Sound contents pending) (hreadable : s.Readable) {fd : Nat} (hbelow : fd < s.kernel.fresh)
    (hfd : s.buf.wpipe_ ≠ some fd) (hreach : program.Reaches perform Ready s calls u) :
    u.kernel.written fd = s.kernel.written fd := by
  have hretired : (s.queues contents pending).Retired fd (s.kernel.written fd) := ⟨hbelow, hfd, rfl⟩
  obtain ⟨-, contents', pending', -, hq⟩ := keeps_account (J := fun _ q => q.Retired fd (s.kernel.written fd))
    (fun _ _ => id) ⟨hreadable, contents, pending, hs, hretired⟩
    (fun _ _ _ _ _ _ _ _ _ hstep hq => hstep.retired hq) hreach
  exact hq.written

/-- Also what an operation writes before it closes the pipe is what was accepted, from the beginning
    on and in order. What one `write` does not take `peof` and `close` give up: once the pipe is
    closed, whatever is called, nothing more is written to it. -/
theorem written_is_beginning (hreach : program.Reaches perform Ready (started k) calls t) {fd : Nat}
    (hfd : t.buf.wpipe_ = some fd) {op : Op} (hready : Ready op t) {r : Ret} {u : Process}
    (hdone : perform op t = .done r u) :
    u.kernel.written fd <+: accepted (calls ++ [(op, r)]) ∧
    (u.buf.wpipe_ ≠ some fd → ∀ more v, program.Reaches perform Ready u more v →
      v.kernel.written fd = u.kernel.written fd) := by
  obtain ⟨hreadable, contents, pending, hs, hq⟩ := accounts_written hreach
  obtain ⟨⟨hreadable', contents', pending', hs', hstep⟩, -⟩ :=
    of_wp_of_done (perform_spec hs hreadable hready) hdone
  rw [accepted_append]
  refine ⟨hstep.begins hs.descriptors.unwritten hq hfd, fun hclosed more v hmore => ?_⟩
  have hopen : fd ∈ t.kernel.fds := by
    rw [hs.descriptors.perm.mem_iff, basic_pstreambuf.held, hfd]
    exact List.mem_cons_self
  have hbelow : fd < u.kernel.fresh := Nat.lt_of_lt_of_le (hs.descriptors.below fd hopen) hstep.fresh_le
  exact written_of_retired hs' hreadable' hbelow hclosed hmore

/-- Of two octets that were taken `peof` has written one, and the other is never written. -/
theorem written_is_beginning_one : ∃ t u, program.Reaches perform Ready (started obliging)
    [(.openCommand ⟨true, true, true⟩, .flag true), (.sputn [72, 105], .count 2)] t ∧
    perform .peof t = .done .nothing u ∧ u.kernel.written 1 <+: [72, 105] ∧
    ∀ more v, program.Reaches perform Ready u more v → v.kernel.written 1 = [72] := by
  have hruns : ((runs perform [.openCommand ⟨true, true, true⟩, .sputn [72, 105]]
    (started obliging)).bind fun x =>
      (runs perform [.peof] x.2).map fun y =>
        (x.1 ++ y.1, x.2.buf.wpipe_, y.2.buf.wpipe_, y.2.kernel.written 1)) =
        some ([.flag true, .count 2, .nothing], some 1, none, [72]) := by decide +kernel
  obtain ⟨⟨rs, t⟩, hruns, hpeof⟩ := Option.bind_eq_some_iff.mp hruns
  obtain ⟨⟨rs', u⟩, hpeof, heq⟩ := Option.map_eq_some_iff.mp hpeof
  obtain ⟨hrets, hrest⟩ := Prod.mk.inj heq
  obtain ⟨hpipe, hrest⟩ := Prod.mk.inj hrest
  obtain ⟨hclosed, hwritten⟩ := Prod.mk.inj hrest
  obtain ⟨r, u', rs', rfl, hdone, hnil⟩ := runs_cons hpeof
  obtain ⟨rfl, rfl⟩ := Prod.mk.inj (Option.some.inj hnil)
  obtain ⟨rfl, hlast⟩ := List.append_inj' (show rs ++ [r] = [.flag true, .count 2] ++ [.nothing] from hrets) rfl
  obtain rfl := List.singleton_inj.mp hlast
  have hreach := program.Reaches.of_runs_cons obliging_ready (by simp [Ready]) hruns
  obtain ⟨hbegins, hnever⟩ := written_is_beginning hreach hpipe (show Ready .peof t from trivial) hdone
  refine ⟨t, u', hreach, hdone, hbegins, fun more v hmore => ?_⟩
  have hnone : u'.buf.wpipe_ ≠ some 1 := by
    rw [show u'.buf.wpipe_ = none from hclosed]
    exact (Option.some_ne_none 1).symm
  exact (hnever hnone more v hmore).trans hwritten

/-- The area of a source, which is put by while the other is read. -/
def basic_pstreambuf.area_of (buf : basic_pstreambuf) (src : buf_read_src) : Area :=
  if src = buf.rsrc_ then buf.area else buf.rbufstate_

/-- The area of a source that is connected, in use or put by, is a part of its buffer. -/
theorem Layout.shows_area {h : Heap UInt8} {buf : basic_pstreambuf} (hl : Layout h buf contents pending)
    {src : buf_read_src} (hpipe : buf.rpipe_ src ≠ none) :
    Shows h (buf.rbuffer_ src) (buf.area_of src) (contents src) := by
  unfold basic_pstreambuf.area_of
  rcases buf.rsrc_.eq_or_other src with rfl | rfl
  · rw [if_pos rfl]
    exact hl.shows
  · rw [if_neg buf.rsrc_.other_ne]
    exact hl.saved hpipe

/-- Octets are put back only by `sungetc`, which puts back what was there. -/
def ReadsOnly (op : Op) (s : Process) : Prop := Ready op s ∧ ∀ d, op ≠ .sputbackc d

/-- What has come from the child on one of its streams is what the callers have been given of it, and
    after that what stands in the area of this source: nothing is lost, given twice or out of order,
    however it is looked at, put back, and changed between the two sources. -/
theorem read_in_order (hreach : program.Reaches perform ReadsOnly (started k) calls t)
    {src : buf_read_src} {fd : Nat}
    (hfd : t.buf.rpipe_ src = some fd) : (consumed calls).source = t.buf.rsrc_ ∧
      ∃ n ahead, (t.buf.area_of src).gptr.distance (t.buf.area_of src).egptr = some n ∧
        t.heap.loads (t.buf.area_of src).gptr n = some ahead ∧
        t.kernel.received fd = (consumed calls).octets src ++ ahead := by
  obtain ⟨-, contents, pending, hs, hq⟩ := keeps_account (J := fun calls q => q.Read (consumed calls))
    (fun _ _ => And.left) (started_keeps (J := fun q => q.Read (consumed []))
      ⟨rfl, fun src fd hfd => (by cases hfd), fun src hsrc => absurd rfl hsrc⟩)
    (fun calls s contents pending op r q' hready hs hstep hq => by
      rw [consumed, List.foldl_append]
      exact hstep.read hready.2 hs.descriptors.unread hs.distinct hq) hreach
  have hshows := hs.layout.shows_area (show t.buf.rpipe_ src ≠ none by rw [hfd]; exact Option.some_ne_none fd)
  refine ⟨hq.source, (contents src).ahead.length, (contents src).ahead, hshows.distances.2, ?_,
    hq.received src fd hfd⟩
  rcases hshows with ⟨harea, hnone⟩ | ⟨b, i, -, harea, -, hholds⟩
  · rw [harea, hnone]
    rfl
  · rw [harea]
    exact hholds.right.loads

/-- Of two octets that have come one has been given to the caller, while the other source is read. -/
theorem read_in_order_partly : ∃ t, program.Reaches perform ReadsOnly (started obliging)
    [(.openCommand ⟨true, true, true⟩, .flag true), (.sbumpc, .octet (some 111)), (.read_err true, .flag true),
      (.sgetc, .octet (some 33))] t ∧ t.kernel.received 2 = [111, 107] ∧ .rsrc_err = t.buf.rsrc_ ∧
      ∃ n ahead, (t.buf.area_of .rsrc_out).gptr.distance (t.buf.area_of .rsrc_out).egptr = some n ∧
        t.heap.loads (t.buf.area_of .rsrc_out).gptr n = some ahead ∧ t.kernel.received 2 = [111] ++ ahead := by
  have hruns : (runs perform [.openCommand ⟨true, true, true⟩, .sbumpc, .read_err true, .sgetc]
    (started obliging)).map
      (fun x => (x.1, x.2.buf.rpipe_ .rsrc_out, x.2.kernel.received 2)) =
        some ([.flag true, .octet (some 111), .flag true, .octet (some 33)], some 2, [111, 107]) := by
          decide +kernel
  obtain ⟨⟨rs, t⟩, hruns, heq⟩ := Option.map_eq_some_iff.mp hruns
  obtain ⟨rfl, hrest⟩ := Prod.mk.inj heq
  obtain ⟨hpipe, hreceived⟩ := Prod.mk.inj hrest
  have hready : ReadsOnly (.openCommand ⟨true, true, true⟩) (started obliging) :=
    ⟨obliging_ready, fun d => Op.noConfusion⟩
  have hreach := program.Reaches.of_runs_cons hready (by simp [ReadsOnly, Ready]) hruns
  exact ⟨t, hreach, hreceived, read_in_order hreach hpipe⟩

end

end taraxacum.pstream
