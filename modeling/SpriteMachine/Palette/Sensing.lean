import SpriteMachine.Palette.Entry
import SpriteMachine.Text.Case

/-!
Blocks that look at the world: the user, the clock and other targets.
-/

namespace SpriteMachine.Palette

open Step Entry

/-- Takes a ticket and waits for its turn, asks, then waits until the turn has passed. -/
def ask : Recipe := fun _ =>
  [op .save,.callEntry "sensing_askandwait.ticket",op .setLocal [0],
    here,label,.callEntry "sensing_askandwait.turn",op .pushLocal [0],op .lt,jump .jumpIfFalse 1,
    resume .forceQueue 0,place 1,
    text "QUESTION",.callSelf,
    here,label,.callEntry "sensing_askandwait.turn",op .pushLocal [0],op .equals,jump .jumpIfFalse 3,
    resume .forceQueue 2,place 3,
    .callEntry "sensing_askandwait.done",op .restore,visual .always]

def setDragMode : Recipe := fun s =>
  [pushBool (s.field "DRAG_MODE" == "draggable"),.callSelf]

def propertyOf : Recipe := fun s =>
  [pushText (s.field "PROPERTY"),text "OBJECT",.callSelf]

def currentDate : Recipe := fun s =>
  [pushText (Text.lower (s.field "CURRENTMENU")),.callSelf]

def sensing : List Entry := [
  statement "sensing_askandwait" ask (some (.sensing .ask)),
  action "sensing_askandwait.ticket" [] (.sensing .takeTicket),
  action "sensing_askandwait.turn" [] (.sensing .currentTicket),
  action "sensing_askandwait.done" [] (.sensing .endAsk),
  statement "sensing_setdragmode" setDragMode (some (.sensing .setDragMode)),
  action "sensing_resettimer" [] (.sensing .resetTimer),
  query "sensing_touchingobject" ["TOUCHINGOBJECTMENU"] (.sensing .touchingObject),
  query "sensing_touchingcolor" ["COLOR"] (.sensing .touchingColour),
  query "sensing_coloristouchingcolor" ["COLOR","COLOR2"] (.sensing .colourTouchingColour),
  query "sensing_distanceto" ["DISTANCETOMENU"] (.sensing .distanceTo),
  query "sensing_answer" [] (.sensing .answer),
  query "sensing_keypressed" ["KEY_OPTION"] (.sensing .keyPressed),
  query "sensing_mousedown" [] (.sensing .mouseDown),
  query "sensing_mousex" [] (.sensing .mouseX),
  query "sensing_mousey" [] (.sensing .mouseY),
  value "sensing_loudness" fun _ => [pushNumber (-1.0)],
  value "sensing_loud" fun _ => [pushBool false],
  query "sensing_timer" [] (.sensing .timer),
  value "sensing_of" propertyOf (some (.sensing .propertyOf)),
  value "sensing_current" currentDate (some (.sensing .currentDate)),
  query "sensing_dayssince2000" [] (.sensing .daysSince2000),
  query "sensing_username" [] (.sensing .username),
  value "sensing_userid" fun _ => [pushText "undefined"],
  menu "sensing_touchingobjectmenu" "TOUCHINGOBJECTMENU",
  menu "sensing_distancetomenu" "DISTANCETOMENU",
  menu "sensing_keyoptions" "KEY_OPTION",
  menu "sensing_of_object_menu" "OBJECT"]

end SpriteMachine.Palette
