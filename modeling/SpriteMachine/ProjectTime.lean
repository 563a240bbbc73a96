import SpriteMachine.Host

/-!
The time of a project in milliseconds. It runs on while the project runs and is taken up again after a pause.
-/

namespace SpriteMachine

structure ProjectTime where
  clock : Clock
  /-- The reading of the clock when the project was last started. -/
  since : Float
  before : Float := 0.0
  running : Bool := false

namespace ProjectTime

/-- The time of a project that has not been started; this reads the clock once. -/
def ofClock (c : Clock) : ProjectTime where
  clock := c.read
  since := c.now

def read (t : ProjectTime) : Float × ProjectTime :=
  (t.clock.now,{ t with clock := t.clock.read })

def now (t : ProjectTime) : Float × ProjectTime :=
  (t.before + t.clock.now - t.since,{ t with clock := t.clock.read })

def start (t : ProjectTime) : ProjectTime :=
  { t with running := true, since := t.clock.now, clock := t.clock.read }

def pause (t : ProjectTime) : ProjectTime :=
  { t with running := false, before := t.before + t.clock.now - t.since, clock := t.clock.read }

def adjust (t : ProjectTime) (f : Clock → Clock) : ProjectTime :=
  { t with clock := f t.clock }

end ProjectTime

end SpriteMachine
