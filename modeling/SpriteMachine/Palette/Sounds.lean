import SpriteMachine.Palette.Entry

/-!
Blocks that play sounds and notes.
-/

namespace SpriteMachine.Palette

open Step Entry

/-- Waits as long as the sound lasts, and not at all if there is no such sound. -/
def playUntilDone : Recipe := fun _ =>
  [op .save,.inputs,.callSelf,label,jump .jumpIfFalse 0] ++ waitElapsed 1 ++ [place 0,op .restore]

def pitch : Recipe := fun s =>
  if (s.field "EFFECT").map Char.toLower == "pitch" then [number "VALUE",.callSelf] else []

def sound : List Entry := [
  action "sound_play" ["SOUND_MENU"] (.sound .play),
  statement "sound_playuntildone" playUntilDone (some (.sound .playUntilDone)) ["SOUND_MENU"],
  action "sound_stopallsounds" [] (.sound .stopAll),
  ofNumber "sound_changevolumeby" "VOLUME" (.sound .changeVolume),
  ofNumber "sound_setvolumeto" "VOLUME" (.sound .setVolume),
  statement "sound_seteffectto" pitch (some (.sound .setPitch)),
  statement "sound_changeeffectby" pitch (some (.sound .changePitch)),
  action "sound_cleareffects" [] (.sound .clearEffects),
  query "sound_volume" [] (.sound .volume),
  menu "sound_sounds_menu" "SOUND_MENU"]

def playForBeats (slot : String) : Recipe := fun _ =>
  waitSeconds [number slot,number "BEATS",.callSelf]

def music : List Entry := [
  statement "music_playNoteForBeats" (playForBeats "NOTE") (some (.music .playNote)),
  statement "music_playDrumForBeats" (playForBeats "DRUM") (some (.music .playDrum)),
  statement "music_restForBeats" (fun _ => waitSeconds [number "BEATS",.callSelf]) (some (.music .rest)),
  ofNumber "music_setTempo" "TEMPO" (.music .setTempo),
  ofNumber "music_changeTempo" "TEMPO" (.music .changeTempo),
  ofNumber "music_setInstrument" "INSTRUMENT" (.music .setInstrument),
  query "music_getTempo" [] (.music .tempo),
  menu "music_menu_DRUM" "DRUM",
  menu "music_menu_INSTRUMENT" "INSTRUMENT"]

end SpriteMachine.Palette
