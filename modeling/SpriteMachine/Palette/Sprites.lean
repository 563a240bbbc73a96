import SpriteMachine.Palette.Entry
import SpriteMachine.Target

/-!
Blocks that move, turn and show targets.
-/

namespace SpriteMachine.Palette

open Step Entry

/-- Moves in the first pass already, then once in a frame until the time is over. -/
def glide : Recipe := fun _ =>
  [visual .drawing,op .save,.inputs,.callSelf,label,jump .jumpIfFalse 0,here,
    .callEntry "motion_glide.step",visual .drawing,jump .jumpIfFalse 0,resume .forceQueue 1,place 0,
    op .restore]

def rotationNumber : RotationStyle → Float
  | .allAround => 0.0
  | .leftRight => 1.0
  | .dontRotate => 2.0

def setRotation : Recipe := fun s =>
  let style := s.field "STYLE"
  match RotationStyle.ofName? style with
  | some r => [pushNumber (rotationNumber r),.callSelf,visual .visible]
  | none => [warn s!"unknown rotation style {style}"]

def undefinedText : Recipe := fun _ => [pushText "undefined"]

def motion : List Entry := [
  visible "motion_movesteps" ["STEPS"] .drawing (.motion .moveSteps),
  visible "motion_turnright" ["DEGREES"] .visible (.motion .turnRight),
  visible "motion_turnleft" ["DEGREES"] .visible (.motion .turnLeft),
  visible "motion_goto" ["TO"] .drawing (.motion .goTo),
  visible "motion_gotoxy" ["X","Y"] .drawing (.motion .goToPoint),
  statement "motion_glideto" glide (some (.motion .glideTo)) ["SECS","TO"],
  statement "motion_glidesecstoxy" glide (some (.motion .glideToPoint)) ["SECS","X","Y"],
  action "motion_glide.step" [] (.motion .glideStep),
  visible "motion_pointindirection" ["DIRECTION"] .visible (.motion .pointInDirection),
  visible "motion_pointtowards" ["TOWARDS"] .visible (.motion .pointTowards),
  visible "motion_changexby" ["DX"] .drawing (.motion .changeX),
  visible "motion_setx" ["X"] .drawing (.motion .setX),
  visible "motion_changeyby" ["DY"] .drawing (.motion .changeY),
  visible "motion_sety" ["Y"] .drawing (.motion .setY),
  action "motion_ifonedgebounce" [] (.motion .bounce),
  statement "motion_setrotationstyle" setRotation (some (.motion .setRotation)),
  query "motion_xposition" [] (.motion .x),
  query "motion_yposition" [] (.motion .y),
  query "motion_direction" [] (.motion .direction),
  menu "motion_goto_menu" "TO",
  menu "motion_glideto_menu" "TO",
  menu "motion_pointtowards_menu" "TOWARDS",
  inert "motion_scroll_right",
  inert "motion_scroll_up",
  inert "motion_align_scene",
  value "motion_xscroll" undefinedText,
  value "motion_yscroll" undefinedText]

/-- Puts up the bubble, waits without yielding first, and takes the bubble down. -/
def sayForSeconds : Recipe := fun _ =>
  [op .save,.inputs,.callSelf,visual .visible,here,label,op .waitElapsed [0],jump .jumpIfTrue 1,
    resume .forceQueue 0,place 1,.callEntry "looks_sayforsecs.clear",op .restore,visual .visible]

def changeBackdrop : Recipe := fun _ =>
  [.inputs,.callSelf,visual .always,op .sceneChanged]

def effect (slot : String) : Recipe := fun s =>
  [pushText (Text.lower (s.field "EFFECT")),number slot,.callSelf,visual .visible]

def hide : Recipe := fun _ =>
  [visual .visible,.emit .flush,.inputs,.callSelf]

def toLayer : Recipe := fun s =>
  [pushBool (s.field "FRONT_BACK" == "front"),.callSelf]

def shiftLayer : Recipe := fun s =>
  let backward := if s.field "FORWARD_BACKWARD" == "forward" then []
    else [pushNumber (-1.0),op .multiply]
  [number "NUM"] ++ backward ++ [.callSelf]

def numberOrName : Recipe := fun s =>
  [pushText (s.field "NUMBER_NAME"),.callSelf]

def looks : List Entry := [
  visible "looks_say" ["MESSAGE"] .visible (.looks (.say false)),
  visible "looks_think" ["MESSAGE"] .visible (.looks (.say true)),
  statement "looks_sayforsecs" sayForSeconds (some (.looks (.sayFor false))) ["MESSAGE","SECS"],
  statement "looks_thinkforsecs" sayForSeconds (some (.looks (.sayFor true))) ["MESSAGE","SECS"],
  action "looks_sayforsecs.clear" [] (.looks .endSay),
  visible "looks_switchcostumeto" ["COSTUME"] .visible (.looks .switchCostume),
  visible "looks_nextcostume" [] .visible (.looks .nextCostume),
  statement "looks_switchbackdropto" changeBackdrop (some (.looks .switchBackdrop)) ["BACKDROP"],
  statement "looks_nextbackdrop" changeBackdrop (some (.looks .nextBackdrop)),
  visibleNumber "looks_changesizeby" "CHANGE" (.looks .changeSize),
  visibleNumber "looks_setsizeto" "SIZE" (.looks .setSize),
  statement "looks_changeeffectby" (effect "CHANGE") (some (.looks .changeEffect)),
  statement "looks_seteffectto" (effect "VALUE") (some (.looks .setEffect)),
  visible "looks_cleargraphiceffects" [] .visible (.looks .clearEffects),
  visible "looks_show" [] .always (.looks .show),
  statement "looks_hide" hide (some (.looks .hide)),
  statement "looks_gotofrontback" toLayer (some (.looks .toLayer)),
  statement "looks_goforwardbackwardlayers" shiftLayer (some (.looks .shiftLayer)),
  value "looks_costumenumbername" numberOrName (some (.looks .costumeNumberName)),
  value "looks_backdropnumbername" numberOrName (some (.looks .backdropNumberName)),
  query "looks_size" [] (.looks .size),
  menu "looks_costume" "COSTUME",
  menu "looks_backdrops" "BACKDROP",
  inert "looks_changestretchby",
  inert "looks_setstretchto",
  inert "looks_hideallsprites"]

end SpriteMachine.Palette
