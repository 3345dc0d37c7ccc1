/-!
# Names of emoji

The names by which emoji can be asked for, after the code points of their emoji with hyphens between
them. A code point of three digits is counted from 1f000. A plus sign after the first code point
tells that a skin tone may follow it. The flags of most countries are listed by the two letters that
stand for them.
-/

namespace ModuleAtlas.Terminal

/-- The code points of emoji and the names for each. -/
def emojiLines : List String := [
  "23-20e3 keycap_number_sign;23-fe0f-20e3 keycap_#;2a-20e3 keycap_asterisk;2a-fe0f-20e3 keycap_*",
  "30-20e3 keycap_digit_zero;30-fe0f-20e3 keycap_0 zero;31-20e3 keycap_digit_one",
  "31-fe0f-20e3 keycap_1 one;32-20e3 keycap_digit_two;32-fe0f-20e3 keycap_2 two",
  "33-20e3 keycap_digit_three;33-fe0f-20e3 keycap_3 three;34-20e3 keycap_digit_four",
  "34-fe0f-20e3 four keycap_4;35-20e3 keycap_digit_five;35-fe0f-20e3 five keycap_5",
  "36-20e3 keycap_digit_six;36-fe0f-20e3 keycap_6 six;37-20e3 keycap_digit_seven",
  "37-fe0f-20e3 keycap_7 seven;38-20e3 keycap_digit_eight;38-fe0f-20e3 eight keycap_8",
  "39-20e3 keycap_digit_nine;39-fe0f-20e3 keycap_9 nine;a9 copyright;ae registered",
  "203c bangbang double_exclamation_mark;2049 exclamation_question_mark interrobang",
  "2122 tm trade_mark;2139 information information_source;2194 left-right_arrow left_right_arrow",
  "2195 arrow_up_down up-down_arrow;2196 arrow_upper_left up-left_arrow",
  "2197 arrow_upper_right up-right_arrow;2198 arrow_lower_right down-right_arrow",
  "2199 arrow_lower_left down-left_arrow;21a9 leftwards_arrow_with_hook right_arrow_curving_left",
  "21aa arrow_right_hook left_arrow_curving_right;231a watch;231b hourglass hourglass_done",
  "2328 keyboard;2388 helm_symbol;23cf eject_button eject_symbol",
  "23e9 fast-forward_button fast_forward;23ea fast_reverse_button rewind",
  "23eb arrow_double_up fast_up_button;23ec arrow_double_down fast_down_button",
  "23ed black_right__pointing_double_triangle_with_vertical_bar next_track_button",
  "23ee black_left__pointing_double_triangle_with_vertical_bar last_track_button",
  "23ef black_right__pointing_triangle_with_double_vertical_bar play_or_pause_button",
  "23f0 alarm_clock;23f1 stopwatch;23f2 timer_clock;23f3 hourglass_flowing_sand hourglass_not_done",
  "23f8 double_vertical_bar pause_button;23f9 black_square_for_stop stop_button",
  "23fa black_circle_for_record record_button;24c2 circled_m m;25aa black_small_square",
  "25ab white_small_square;25b6 arrow_forward play_button;25c0 arrow_backward reverse_button",
  "25fb white_medium_square;25fc black_medium_square",
  "25fd white_medium-small_square white_medium_small_square",
  "25fe black_medium-small_square black_medium_small_square;2600 sun sunny;2601 cloud",
  "2602 umbrella;2603 snowman;2604 comet;260e phone telephone;2611 ballot_box_with_check",
  "2614 umbrella_with_rain_drops;2615 coffee hot_beverage;2618 shamrock;261d point_up",
  "261d+ index_pointing_up;2620 skull_and_crossbones;2622 radioactive radioactive_sign",
  "2623 biohazard biohazard_sign;2626 orthodox_cross;262a star_and_crescent;262e peace_symbol",
  "262f yin_yang;2638 wheel_of_dharma;2639 frowning_face white_frowning_face",
  "263a relaxed smiling_face;2640 female_sign;2642 male_sign;2648 aries;2649 taurus;264a gemini",
  "264b cancer;264c leo;264d virgo;264e libra;264f scorpio scorpius;2650 sagittarius",
  "2651 capricorn;2652 aquarius;2653 pisces;265f chess_pawn;2660 spade_suit spades",
  "2663 club_suit clubs;2665 heart_suit hearts;2666 diamond_suit diamonds",
  "2668 hot_springs hotsprings;267b recycle recycling_symbol;267e infinity",
  "267f wheelchair wheelchair_symbol;2692 hammer_and_pick;2693 anchor;2694 crossed_swords",
  "2695 medical_symbol;2696 balance_scale scales;2697 alembic;2699 gear;269b atom_symbol",
  "269c fleur-de-lis fleur__de__lis;26a0 warning;26a1 high_voltage zap;26aa white_circle",
  "26ab black_circle;26b0 coffin;26b1 funeral_urn;26bd soccer soccer_ball;26be baseball",
  "26c4 snowman_without_snow;26c5 partly_sunny sun_behind_cloud",
  "26c8 cloud_with_lightning_and_rain thunder_cloud_and_rain;26ce ophiuchus;26cf pick",
  "26d1 helmet_with_white_cross rescue_worker’s_helmet;26d3 chains;26d4 no_entry",
  "26e9 shinto_shrine;26ea church;26f0 mountain;26f1 umbrella_on_ground;26f2 fountain",
  "26f3 flag_in_hole golf;26f4 ferry;26f5 boat sailboat;26f7 skier;26f8 ice_skate",
  "26f9 person_with_ball;26f9+ person_bouncing_ball;26f9+-fe0f-200d-2640-fe0f woman_bouncing_ball",
  "26f9+-fe0f-200d-2642-fe0f man_bouncing_ball;26fa tent;26fd fuel_pump fuelpump;2702 scissors",
  "2705 white_check_mark white_heavy_check_mark;2708 airplane;2709 email envelope;270a fist",
  "270a+ raised_fist;270b hand;270b+ raised_hand;270c v;270c+ victory_hand;270d+ writing_hand",
  "270f pencil2;2712 black_nib;2714 heavy_check_mark;2716 heavy_multiplication_x;271d latin_cross",
  "2721 star_of_david;2728 sparkles;2733 eight-spoked_asterisk eight_spoked_asterisk",
  "2734 eight-pointed_star eight_pointed_black_star;2744 snowflake;2747 sparkle;274c cross_mark x",
  "274e cross_mark_button negative_squared_cross_mark;2753 question question_mark",
  "2754 grey_question white_question_mark;2755 grey_exclamation white_exclamation_mark",
  "2757 exclamation exclamation_mark heavy_exclamation_mark",
  "2763 heavy_heart_exclamation heavy_heart_exclamation_mark_ornament;2764 heart red_heart",
  "2795 heavy_plus_sign;2796 heavy_minus_sign;2797 heavy_division_sign",
  "27a1 arrow_right right_arrow;27b0 curly_loop;27bf double_curly_loop loop",
  "2934 arrow_heading_up right_arrow_curving_up;2935 arrow_heading_down right_arrow_curving_down",
  "2b05 arrow_left left_arrow;2b06 arrow_up up_arrow;2b07 arrow_down down_arrow",
  "2b1b black_large_square;2b1c white_large_square;2b50 star white_medium_star",
  "2b55 heavy_large_circle o;3030 wavy_dash;303d part_alternation_mark",
  "3297 congratulations japanese_congratulations_button;3299 japanese_secret_button secret",
  "004 mahjong mahjong_red_dragon;0cf black_joker joker;170 a a_button_(blood_type)",
  "171 b b_button_(blood_type);17e o2 o_button_(blood_type);17f p_button parking",
  "18e ab ab_button_(blood_type);191 cl cl_button;192 cool cool_button;193 free free_button",
  "194 id id_button;195 new new_button;196 ng ng_button;197 ok ok_button;198 sos sos_button",
  "199 up up!_button;19a vs vs_button;1e6 regional_indicator_a regional_indicator_symbol_letter_a",
  "1e7 regional_indicator_b regional_indicator_symbol_letter_b",
  "1e8 regional_indicator_c regional_indicator_symbol_letter_c",
  "1e8-1e8 cocos_(keeling)_islands flag_for_cocos__islands",
  "1e8-1e9 congo_-_kinshasa flag_for_congo____kinshasa",
  "1e8-1ec congo_-_brazzaville flag_for_congo____brazzaville",
  "1e8-1ff czechia flag_for_czech_republic",
  "1e9 regional_indicator_d regional_indicator_symbol_letter_d",
  "1ea regional_indicator_e regional_indicator_symbol_letter_e",
  "1eb regional_indicator_f regional_indicator_symbol_letter_f",
  "1ec regional_indicator_g regional_indicator_symbol_letter_g",
  "1ec-1fc flag_for_guinea__bissau guinea-bissau",
  "1ed regional_indicator_h regional_indicator_symbol_letter_h",
  "1ed-1f0 flag_for_hong_kong hong_kong_sar_china",
  "1ee regional_indicator_i regional_indicator_symbol_letter_i",
  "1ef regional_indicator_j regional_indicator_symbol_letter_j;1ef-1f5 flag_for_japan",
  "1f0 regional_indicator_k regional_indicator_symbol_letter_k",
  "1f1 regional_indicator_l regional_indicator_symbol_letter_l",
  "1f2 regional_indicator_m regional_indicator_symbol_letter_m",
  "1f2-1f2 flag_for_myanmar myanmar_(burma);1f2-1f4 flag_for_macau macau_sar_china",
  "1f3 regional_indicator_n regional_indicator_symbol_letter_n",
  "1f4 regional_indicator_o regional_indicator_symbol_letter_o",
  "1f5 regional_indicator_p regional_indicator_symbol_letter_p",
  "1f6 regional_indicator_q regional_indicator_symbol_letter_q",
  "1f7 regional_indicator_r regional_indicator_symbol_letter_r",
  "1f8 regional_indicator_s regional_indicator_symbol_letter_s",
  "1f9 regional_indicator_symbol_letter_t regional_indicator_t",
  "1f9-1f1 flag_for_timor__leste timor-leste;1f9-1f7 flag_for_turkey",
  "1fa regional_indicator_symbol_letter_u regional_indicator_u;1fa-1f3 united_nations",
  "1fb regional_indicator_symbol_letter_v regional_indicator_v",
  "1fc regional_indicator_symbol_letter_w regional_indicator_w",
  "1fd regional_indicator_symbol_letter_x regional_indicator_x",
  "1fe regional_indicator_symbol_letter_y regional_indicator_y",
  "1ff regional_indicator_symbol_letter_z regional_indicator_z;201 japanese_here_button koko",
  "202 japanese_service_charge_button sa;21a japanese_free_of_charge_button u7121",
  "22f japanese_reserved_button u6307;232 japanese_prohibited_button u7981",
  "233 japanese_vacancy_button u7a7a;234 japanese_passing_grade_button u5408",
  "235 japanese_no_vacancy_button u6e80;236 japanese_not_free_of_charge_button u6709",
  "237 japanese_monthly_amount_button u6708;238 japanese_application_button u7533",
  "239 japanese_discount_button u5272;23a japanese_open_for_business_button u55b6",
  "250 ideograph_advantage japanese_bargain_button;251 accept japanese_acceptable_button",
  "300 cyclone;301 foggy;302 closed_umbrella;303 night_with_stars;304 sunrise_over_mountains",
  "305 sunrise;306 city_sunset cityscape_at_dusk;307 city_sunrise sunset;308 rainbow",
  "309 bridge_at_night;30a ocean water_wave;30b volcano;30c milky_way",
  "30d earth_africa globe_showing_europe-africa;30e earth_americas globe_showing_americas",
  "30f earth_asia globe_showing_asia-australia;310 globe_with_meridians;311 new_moon",
  "312 waxing_crescent_moon;313 first_quarter_moon;314 moon waxing_gibbous_moon;315 full_moon",
  "316 waning_gibbous_moon;317 last_quarter_moon;318 waning_crescent_moon;319 crescent_moon",
  "31a new_moon_face new_moon_with_face;31b first_quarter_moon_face first_quarter_moon_with_face",
  "31c last_quarter_moon_face last_quarter_moon_with_face;31d full_moon_face full_moon_with_face",
  "31e sun_with_face;31f glowing_star star2;320 shooting_star stars;321 thermometer",
  "324 sun_behind_small_cloud white_sun_with_small_cloud",
  "325 sun_behind_large_cloud white_sun_behind_cloud",
  "326 sun_behind_rain_cloud white_sun_behind_cloud_with_rain;327 cloud_with_rain",
  "328 cloud_with_snow;329 cloud_with_lightning;32a cloud_with_tornado tornado;32b fog",
  "32c wind_blowing_face wind_face;32d hot_dog;32e taco;32f burrito;330 chestnut;331 seedling",
  "332 evergreen_tree;333 deciduous_tree;334 palm_tree;335 cactus;336 hot_pepper;337 tulip",
  "338 cherry_blossom;339 rose;33a hibiscus;33b sunflower;33c blossom;33d corn ear_of_corn",
  "33e ear_of_rice sheaf_of_rice;33f herb;340 four_leaf_clover;341 maple_leaf;342 fallen_leaf",
  "343 leaf_fluttering_in_wind leaves;344 mushroom;345 tomato;346 eggplant;347 grapes;348 melon",
  "349 watermelon;34a tangerine;34b lemon;34c banana;34d pineapple;34e apple red_apple",
  "34f green_apple;350 pear;351 peach;352 cherries;353 strawberry;354 hamburger;355 pizza",
  "356 meat_on_bone;357 poultry_leg;358 rice_cracker;359 rice_ball;35a cooked_rice rice",
  "35b curry curry_rice;35c ramen steaming_bowl;35d spaghetti;35e bread;35f french_fries fries",
  "360 roasted_sweet_potato sweet_potato;361 dango;362 oden;363 sushi;364 fried_shrimp",
  "365 fish_cake fish_cake_with_swirl;366 icecream soft_ice_cream;367 shaved_ice;368 ice_cream",
  "369 doughnut;36a cookie;36b chocolate_bar;36c candy;36d lollipop;36e custard;36f honey_pot",
  "370 cake shortcake;371 bento bento_box;372 pot_of_food stew;373 cooking egg;374 fork_and_knife",
  "375 tea teacup_without_handle;376 sake;377 wine_glass;378 cocktail cocktail_glass",
  "379 tropical_drink;37a beer beer_mug;37b beers clinking_beer_mugs;37c baby_bottle",
  "37d fork_and_knife_with_plate;37e bottle_with_popping_cork;37f popcorn;380 ribbon",
  "381 gift wrapped_gift;382 birthday birthday_cake;383 jack-o-lantern jack_o_lantern",
  "384 christmas_tree;385 santa;385+ santa_claus;386 fireworks;387 sparkler;388 balloon",
  "389 party_popper tada;38a confetti_ball;38b tanabata_tree;38c crossed_flags",
  "38d bamboo pine_decoration;38e dolls japanese_dolls;38f carp_streamer flags;390 wind_chime",
  "391 moon_viewing_ceremony rice_scene;392 school_backpack school_satchel",
  "393 graduation_cap mortar_board;396 military_medal;397 reminder_ribbon;399 studio_microphone",
  "39a level_slider;39b control_knobs;39e film_frames;39f admission_tickets;3a0 carousel_horse",
  "3a1 ferris_wheel;3a2 roller_coaster;3a3 fishing_pole fishing_pole_and_fish;3a4 microphone",
  "3a5 movie_camera;3a6 cinema;3a7 headphone headphones;3a8 art artist_palette;3a9 top_hat tophat",
  "3aa circus_tent;3ab ticket;3ac clapper clapper_board;3ad performing_arts;3ae video_game",
  "3af dart direct_hit;3b0 slot_machine;3b1 8ball pool_8_ball;3b2 game_die;3b3 bowling",
  "3b4 flower_playing_cards;3b5 musical_note;3b6 musical_notes notes;3b7 saxophone;3b8 guitar",
  "3b9 musical_keyboard;3ba trumpet;3bb violin;3bc musical_score",
  "3bd running_shirt running_shirt_with_sash;3be tennis;3bf ski skis;3c0 basketball",
  "3c1 checkered_flag chequered_flag;3c2+ snowboarder;3c3 runner running;3c3+ person_running",
  "3c3+-200d-2640-fe0f woman_running;3c3+-200d-2642-fe0f man_running;3c4 surfer",
  "3c4+ person_surfing;3c4+-200d-2640-fe0f woman_surfing;3c4+-200d-2642-fe0f man_surfing",
  "3c5 sports_medal;3c6 trophy;3c7+ horse_racing;3c8 american_football football;3c9 rugby_football",
  "3ca swimmer;3ca+ person_swimming;3ca+-200d-2640-fe0f woman_swimming",
  "3ca+-200d-2642-fe0f man_swimming;3cb weight_lifter;3cb+ person_lifting_weights",
  "3cb+-fe0f-200d-2640-fe0f woman_lifting_weights;3cb+-fe0f-200d-2642-fe0f man_lifting_weights",
  "3cc golfer;3cc+ person_golfing;3cc+-fe0f-200d-2640-fe0f woman_golfing",
  "3cc+-fe0f-200d-2642-fe0f man_golfing;3cd motorcycle racing_motorcycle;3ce racing_car",
  "3cf cricket_bat_and_ball cricket_game;3d0 volleyball",
  "3d1 field_hockey field_hockey_stick_and_ball;3d2 ice_hockey ice_hockey_stick_and_puck",
  "3d3 ping_pong table_tennis_paddle_and_ball;3d4 snow-capped_mountain snow_capped_mountain",
  "3d5 camping;3d6 beach_with_umbrella;3d7 building_construction;3d8 house_buildings houses",
  "3d9 cityscape;3da derelict_house derelict_house_building;3db classical_building;3dc desert",
  "3dd desert_island;3de national_park;3df stadium;3e0 house;3e1 house_with_garden",
  "3e2 office office_building;3e3 japanese_post_office post_office;3e4 european_post_office",
  "3e5 hospital;3e6 bank;3e7 atm atm_sign;3e8 hotel;3e9 love_hotel;3ea convenience_store",
  "3eb school;3ec department_store;3ed factory;3ee izakaya_lantern lantern red_paper_lantern",
  "3ef japanese_castle;3f0 castle european_castle;3f3 waving_white_flag white_flag",
  "3f3-fe0f-200d-308 rainbow_flag;3f4 black_flag waving_black_flag;3f4-200d-2620-fe0f pirate_flag",
  "3f4-e0067-e0062-e0065-e006e-e0067-e007f england",
  "3f4-e0067-e0062-e0073-e0063-e0074-e007f scotland;3f4-e0067-e0062-e0077-e006c-e0073-e007f wales",
  "3f5 rosette;3f7 label;3f8 badminton badminton_racquet_and_shuttlecock;3f9 bow_and_arrow",
  "3fa amphora;3fb emoji_modifier_fitzpatrick_type__1__2 light_skin_tone",
  "3fc emoji_modifier_fitzpatrick_type__3 medium_light_skin_tone",
  "3fd emoji_modifier_fitzpatrick_type__4 medium_skin_tone",
  "3fe emoji_modifier_fitzpatrick_type__5 medium_dark_skin_tone",
  "3ff dark_skin_tone emoji_modifier_fitzpatrick_type__6;400 rat;401 mouse2;402 ox",
  "403 water_buffalo;404 cow2;405 tiger2;406 leopard;407 rabbit2;408 cat2;409 dragon;40a crocodile",
  "40b whale2;40c snail;40d snake;40e racehorse;40f ram;410 goat;411 ewe sheep;412 monkey",
  "413 rooster;414 chicken;415 dog2;415-200d-9ba service_dog;416 pig2;417 boar;418 elephant",
  "419 octopus;41a shell spiral_shell;41b bug;41c ant;41d bee honeybee;41e beetle lady_beetle",
  "41f fish;420 tropical_fish;421 blowfish;422 turtle;423 hatching_chick;424 baby_chick",
  "425 front-facing_baby_chick hatched_chick;426 bird;427 penguin;428 koala;429 poodle",
  "42a dromedary_camel;42b camel two-hump_camel;42c dolphin flipper;42d mouse mouse_face",
  "42e cow cow_face;42f tiger tiger_face;430 rabbit rabbit_face;431 cat cat_face;432 dragon_face",
  "433 spouting_whale whale;434 horse horse_face;435 monkey_face;436 dog dog_face;437 pig pig_face",
  "438 frog frog_face;439 hamster hamster_face;43a wolf wolf_face;43b bear bear_face",
  "43c panda_face;43d pig_nose;43e feet paw_prints;43f chipmunk;440 eyes;441 eye",
  "441-fe0f-200d-5e8-fe0f eye_in_speech_bubble;442+ ear;443+ nose;444 lips mouth;445 tongue",
  "446 point_up_2;446+ backhand_index_pointing_up;447 point_down;447+ backhand_index_pointing_down",
  "448 point_left;448+ backhand_index_pointing_left;449 point_right",
  "449+ backhand_index_pointing_right;44a facepunch punch;44a+ oncoming_fist;44b wave",
  "44b+ waving_hand;44c+ ok_hand;44d +1 thumbsup;44d+ thumbs_up;44e -1 __1 thumbsdown",
  "44e+ thumbs_down;44f clap;44f+ clapping_hands;450+ open_hands;451 crown",
  "452 womans_hat woman’s_hat;453 eyeglasses glasses;454 necktie;455 shirt t-shirt tshirt",
  "456 jeans;457 dress;458 kimono;459 bikini;45a womans_clothes woman’s_clothes;45b purse",
  "45c handbag;45d clutch_bag pouch;45e mans_shoe man’s_shoe shoe;45f athletic_shoe running_shoe",
  "460 high-heeled_shoe high_heel;461 sandal woman’s_sandal;462 boot woman’s_boot;463 footprints",
  "464 bust_in_silhouette;465 busts_in_silhouette;466+ boy;467+ girl;468+ man",
  "468+-200d-2695-fe0f man_health_worker;468+-200d-2696-fe0f man_judge",
  "468+-200d-2708-fe0f man_pilot;468-200d-2764-fe0f-200d-468 couple_with_heart_man_man",
  "468-200d-2764-fe0f-200d-48b-200d-468 kiss_man_man;468+-200d-33e man_farmer",
  "468+-200d-373 man_cook;468+-200d-393 man_student;468+-200d-3a4 man_singer",
  "468+-200d-3a8 man_artist;468+-200d-3eb man_teacher;468+-200d-3ed man_factory_worker",
  "468-200d-466 family_man_boy;468-200d-466-200d-466 family_man_boy_boy",
  "468-200d-467 family_man_girl;468-200d-467-200d-466 family_man_girl_boy",
  "468-200d-467-200d-467 family_man_girl_girl;468-200d-468-200d-466 family_man_man_boy",
  "468-200d-468-200d-466-200d-466 family_man_man_boy_boy;468-200d-468-200d-467 family_man_man_girl",
  "468-200d-468-200d-467-200d-466 family_man_man_girl_boy",
  "468-200d-468-200d-467-200d-467 family_man_man_girl_girl",
  "468-200d-469-200d-466 family_man_woman_boy",
  "468-200d-469-200d-466-200d-466 family_man_woman_boy_boy",
  "468-200d-469-200d-467 family_man_woman_girl",
  "468-200d-469-200d-467-200d-466 family_man_woman_girl_boy",
  "468-200d-469-200d-467-200d-467 family_man_woman_girl_girl;468+-200d-4bb man_technologist",
  "468+-200d-4bc man_office_worker;468+-200d-527 man_mechanic;468+-200d-52c man_scientist",
  "468+-200d-680 man_astronaut;468+-200d-692 man_firefighter;468-200d-9af man_with_probing_cane",
  "468-200d-9b0 red-haired_man;468-200d-9b1 curly-haired_man;468-200d-9b2 bald_man",
  "468-200d-9b3 white-haired_man;468-200d-9bc man_in_motorized_wheelchair",
  "468-200d-9bd man_in_manual_wheelchair;469+ woman;469+-200d-2695-fe0f woman_health_worker",
  "469+-200d-2696-fe0f woman_judge;469+-200d-2708-fe0f woman_pilot",
  "469-200d-2764-fe0f-200d-468 couple_with_heart_woman_man",
  "469-200d-2764-fe0f-200d-469 couple_with_heart_woman_woman",
  "469-200d-2764-fe0f-200d-48b-200d-468 kiss_woman_man",
  "469-200d-2764-fe0f-200d-48b-200d-469 kiss_woman_woman;469+-200d-33e woman_farmer",
  "469+-200d-373 woman_cook;469+-200d-393 woman_student;469+-200d-3a4 woman_singer",
  "469+-200d-3a8 woman_artist;469+-200d-3eb woman_teacher;469+-200d-3ed woman_factory_worker",
  "469-200d-466 family_woman_boy;469-200d-466-200d-466 family_woman_boy_boy",
  "469-200d-467 family_woman_girl;469-200d-467-200d-466 family_woman_girl_boy",
  "469-200d-467-200d-467 family_woman_girl_girl;469-200d-469-200d-466 family_woman_woman_boy",
  "469-200d-469-200d-466-200d-466 family_woman_woman_boy_boy",
  "469-200d-469-200d-467 family_woman_woman_girl",
  "469-200d-469-200d-467-200d-466 family_woman_woman_girl_boy",
  "469-200d-469-200d-467-200d-467 family_woman_woman_girl_girl;469+-200d-4bb woman_technologist",
  "469+-200d-4bc woman_office_worker;469+-200d-527 woman_mechanic;469+-200d-52c woman_scientist",
  "469+-200d-680 woman_astronaut;469+-200d-692 woman_firefighter",
  "469-200d-9af woman_with_probing_cane;469-200d-9b0 red-haired_woman",
  "469-200d-9b1 curly-haired_woman;469-200d-9b2 bald_woman;469-200d-9b3 white-haired_woman",
  "469-200d-9bc woman_in_motorized_wheelchair;469-200d-9bd woman_in_manual_wheelchair;46a family",
  "46b couple man_and_woman_holding_hands;46c two_men_holding_hands;46d two_women_holding_hands",
  "46e cop;46e+ police_officer;46e+-200d-2640-fe0f woman_police_officer",
  "46e+-200d-2642-fe0f man_police_officer;46f dancers people_with_bunny_ears",
  "46f-200d-2640-fe0f women_with_bunny_ears;46f-200d-2642-fe0f men_with_bunny_ears",
  "470+ bride_with_veil;471 person_with_blond_hair;471+ blond-haired_person",
  "471+-200d-2640-fe0f blond-haired_woman;471+-200d-2642-fe0f blond-haired_man",
  "472 man_with_gua_pi_mao;472+ man_with_chinese_cap;473 man_with_turban",
  "473+ person_wearing_turban;473+-200d-2640-fe0f woman_wearing_turban",
  "473+-200d-2642-fe0f man_wearing_turban;474 older_man;474+ old_man;475 older_woman",
  "475+ old_woman;476+ baby;477+ construction_worker;477+-200d-2640-fe0f woman_construction_worker",
  "477+-200d-2642-fe0f man_construction_worker;478+ princess;479 japanese_ogre ogre",
  "47a goblin japanese_goblin;47b ghost;47c angel;47c+ baby_angel;47d alien",
  "47e alien_monster space_invader;47f angry_face_with_horns imp;480 skull",
  "481 information_desk_person;481+ person_tipping_hand;481+-200d-2640-fe0f woman_tipping_hand",
  "481+-200d-2642-fe0f man_tipping_hand;482 guardsman;482+ guard;482+-200d-2640-fe0f woman_guard",
  "482+-200d-2642-fe0f man_guard;483 dancer;483+ woman_dancing;484 lipstick;485 nail_care",
  "485+ nail_polish;486 massage;486+ person_getting_massage",
  "486+-200d-2640-fe0f woman_getting_massage;486+-200d-2642-fe0f man_getting_massage;487 haircut",
  "487+ person_getting_haircut;487+-200d-2640-fe0f woman_getting_haircut",
  "487+-200d-2642-fe0f man_getting_haircut;488 barber barber_pole;489 syringe;48a pill",
  "48b kiss kiss_mark;48c love_letter;48d ring;48e gem gem_stone;48f couplekiss;490 bouquet",
  "491 couple_with_heart;492 wedding;493 beating_heart heartbeat;494 broken_heart;495 two_hearts",
  "496 sparkling_heart;497 growing_heart heartpulse;498 cupid heart_with_arrow;499 blue_heart",
  "49a green_heart;49b yellow_heart;49c purple_heart;49d gift_heart heart_with_ribbon",
  "49e revolving_hearts;49f heart_decoration",
  "4a0 diamond_shape_with_a_dot_inside diamond_with_a_dot;4a1 bulb light_bulb",
  "4a2 anger anger_symbol;4a3 bomb;4a4 zzz;4a5 boom collision;4a6 sweat_droplets sweat_drops",
  "4a7 droplet;4a8 dash dashing_away;4a9 hankey pile_of_poo poop shit;4aa muscle",
  "4aa+ flexed_biceps;4ab dizzy;4ac speech_balloon;4ad thought_balloon;4ae white_flower",
  "4af 100 hundred_points;4b0 money_bag moneybag;4b1 currency_exchange;4b2 heavy_dollar_sign",
  "4b3 credit_card;4b4 yen yen_banknote;4b5 dollar dollar_banknote;4b6 euro euro_banknote",
  "4b7 pound pound_banknote;4b8 money_with_wings;4b9 chart chart_increasing_with_yen;4ba seat",
  "4bb computer laptop_computer;4bc briefcase;4bd computer_disk minidisc;4be floppy_disk",
  "4bf cd optical_disk;4c0 dvd;4c1 file_folder;4c2 open_file_folder;4c3 page_with_curl",
  "4c4 page_facing_up;4c5 date;4c6 calendar tear-off_calendar;4c7 card_index",
  "4c8 chart_increasing chart_with_upwards_trend;4c9 chart_decreasing chart_with_downwards_trend",
  "4ca bar_chart;4cb clipboard;4cc pushpin;4cd round_pushpin;4ce paperclip;4cf straight_ruler",
  "4d0 triangular_ruler;4d1 bookmark_tabs;4d2 ledger;4d3 notebook",
  "4d4 notebook_with_decorative_cover;4d5 closed_book;4d6 book open_book;4d7 green_book",
  "4d8 blue_book;4d9 orange_book;4da books;4db name_badge;4dc scroll;4dd memo pencil",
  "4de telephone_receiver;4df pager;4e0 fax fax_machine;4e1 satellite satellite_antenna",
  "4e2 loudspeaker;4e3 mega megaphone;4e4 outbox_tray;4e5 inbox_tray;4e6 package",
  "4e7 e-mail e__mail;4e8 incoming_envelope;4e9 envelope_with_arrow",
  "4ea closed_mailbox_with_lowered_flag mailbox_closed;4eb closed_mailbox_with_raised_flag mailbox",
  "4ec mailbox_with_mail open_mailbox_with_raised_flag",
  "4ed mailbox_with_no_mail open_mailbox_with_lowered_flag;4ee postbox;4ef postal_horn",
  "4f0 newspaper;4f1 iphone mobile_phone;4f2 calling mobile_phone_with_arrow;4f3 vibration_mode",
  "4f4 mobile_phone_off;4f5 no_mobile_phones;4f6 antenna_bars signal_strength;4f7 camera",
  "4f8 camera_with_flash;4f9 video_camera;4fa television tv;4fb radio;4fc vhs videocassette",
  "4fd film_projector;4ff prayer_beads;500 shuffle_tracks_button twisted_rightwards_arrows",
  "501 repeat repeat_button;502 repeat_one repeat_single_button",
  "503 arrows_clockwise clockwise_vertical_arrows",
  "504 arrows_counterclockwise counterclockwise_arrows_button;505 dim_button low_brightness",
  "506 bright_button high_brightness;507 mute muted_speaker;508 speaker speaker_low_volume",
  "509 sound speaker_medium_volume;50a loud_sound speaker_high_volume;50b battery",
  "50c electric_plug;50d mag magnifying_glass_tilted_left",
  "50e mag_right magnifying_glass_tilted_right;50f lock_with_ink_pen locked_with_pen",
  "510 closed_lock_with_key locked_with_key;511 key;512 lock locked;513 unlock unlocked;514 bell",
  "515 bell_with_slash no_bell;516 bookmark;517 link;518 radio_button;519 back back_arrow",
  "51a end end_arrow;51b on on!_arrow;51c soon soon_arrow;51d top top_arrow",
  "51e no_one_under_eighteen underage;51f keycap_10 ten;520 capital_abcd input_latin_uppercase",
  "521 abcd input_latin_lowercase;522 1234 input_numbers;523 input_symbols symbols",
  "524 abc input_latin_letters;525 fire;526 flashlight;527 wrench;528 hammer;529 nut_and_bolt",
  "52a hocho kitchen_knife knife;52b gun pistol;52c microscope;52d telescope;52e crystal_ball",
  "52f dotted_six-pointed_star six_pointed_star;530 beginner japanese_symbol_for_beginner",
  "531 trident trident_emblem;532 black_square_button;533 white_square_button;534 red_circle",
  "535 blue_circle large_blue_circle;536 large_orange_diamond;537 large_blue_diamond",
  "538 small_orange_diamond;539 small_blue_diamond;53a red_triangle_pointed_up small_red_triangle",
  "53b red_triangle_pointed_down small_red_triangle_down;53c arrow_up_small upwards_button",
  "53d arrow_down_small downwards_button;549 om om_symbol;54a dove dove_of_peace;54b kaaba",
  "54c mosque;54d synagogue;54e menorah menorah_with_nine_branches;550 clock1 one_o’clock",
  "551 clock2 two_o’clock;552 clock3 three_o’clock;553 clock4 four_o’clock;554 clock5 five_o’clock",
  "555 clock6 six_o’clock;556 clock7 seven_o’clock;557 clock8 eight_o’clock",
  "558 clock9 nine_o’clock;559 clock10 ten_o’clock;55a clock11 eleven_o’clock",
  "55b clock12 twelve_o’clock;55c clock130 one-thirty;55d clock230 two-thirty",
  "55e clock330 three-thirty;55f clock430 four-thirty;560 clock530 five-thirty",
  "561 clock630 six-thirty;562 clock730 seven-thirty;563 clock830 eight-thirty",
  "564 clock930 nine-thirty;565 clock1030 ten-thirty;566 clock1130 eleven-thirty",
  "567 clock1230 twelve-thirty;56f candle;570 mantelpiece_clock;573 hole",
  "574 man_in_business_suit_levitating;574+ man_in_suit_levitating;575 sleuth_or_spy",
  "575+ detective;575+-fe0f-200d-2640-fe0f woman_detective;575+-fe0f-200d-2642-fe0f man_detective",
  "576 dark_sunglasses;577 spider;578 spider_web;579 joystick;57a+ man_dancing",
  "587 linked_paperclips;58a lower_left_ballpoint_pen pen;58b fountain_pen lower_left_fountain_pen",
  "58c lower_left_paintbrush paintbrush;58d crayon lower_left_crayon",
  "590 raised_hand_with_fingers_splayed;590+ hand_with_fingers_splayed",
  "595 reversed_hand_with_middle_finger_extended;595+ middle_finger",
  "596 raised_hand_with_part_between_middle_and_ring_fingers;596+ vulcan_salute;5a4 black_heart",
  "5a5 desktop_computer;5a8 printer;5b1 computer_mouse three_button_mouse;5b2 trackball",
  "5bc frame_with_picture framed_picture;5c2 card_index_dividers;5c3 card_file_box",
  "5c4 file_cabinet;5d1 wastebasket;5d2 spiral_note_pad spiral_notepad",
  "5d3 spiral_calendar spiral_calendar_pad;5dc clamp compression;5dd old_key",
  "5de rolled-up_newspaper rolled__up_newspaper;5e1 dagger dagger_knife",
  "5e3 speaking_head speaking_head_in_silhouette;5e8 left_speech_bubble;5ef right_anger_bubble",
  "5f3 ballot_box_with_ballot;5fa world_map;5fb mount_fuji;5fc tokyo_tower;5fd statue_of_liberty",
  "5fe japan map_of_japan;5ff moai moyai;600 grinning grinning_face",
  "601 beaming_face_with_smiling_eyes grin;602 face_with_tears_of_joy joy",
  "603 grinning_face_with_big_eyes smiley;604 grinning_face_with_smiling_eyes smile",
  "605 grinning_face_with_sweat sweat_smile;606 grinning_squinting_face laughing satisfied",
  "607 innocent smiling_face_with_halo;608 smiling_face_with_horns smiling_imp",
  "609 wink winking_face;60a blush smiling_face_with_smiling_eyes;60b face_savoring_food yum",
  "60c relieved relieved_face;60d heart_eyes smiling_face_with_heart-eyes",
  "60e smiling_face_with_sunglasses sunglasses;60f smirk smirking_face;610 neutral_face",
  "611 expressionless expressionless_face;612 unamused unamused_face",
  "613 downcast_face_with_sweat sweat;614 pensive pensive_face;615 confused confused_face",
  "616 confounded confounded_face;617 kissing kissing_face;618 face_blowing_a_kiss kissing_heart",
  "619 kissing_face_with_smiling_eyes kissing_smiling_eyes",
  "61a kissing_closed_eyes kissing_face_with_closed_eyes;61b face_with_tongue stuck_out_tongue",
  "61c stuck_out_tongue_winking_eye winking_face_with_tongue",
  "61d squinting_face_with_tongue stuck_out_tongue_closed_eyes;61e disappointed disappointed_face",
  "61f worried worried_face;620 angry angry_face;621 pouting_face rage;622 cry crying_face",
  "623 persevere persevering_face;624 face_with_steam_from_nose triumph",
  "625 disappointed_relieved sad_but_relieved_face;626 frowning frowning_face_with_open_mouth",
  "627 anguished anguished_face;628 fearful fearful_face;629 weary weary_face",
  "62a sleepy sleepy_face;62b tired_face;62c grimacing grimacing_face;62d loudly_crying_face sob",
  "62e face_with_open_mouth open_mouth;62f hushed hushed_face",
  "630 anxious_face_with_sweat cold_sweat;631 face_screaming_in_fear scream",
  "632 astonished astonished_face;633 flushed flushed_face;634 sleeping sleeping_face",
  "635 dizzy_face;636 face_without_mouth no_mouth;637 face_with_medical_mask mask",
  "638 grinning_cat_face_with_smiling_eyes smile_cat;639 cat_face_with_tears_of_joy joy_cat",
  "63a grinning_cat_face smiley_cat;63b heart_eyes_cat smiling_cat_face_with_heart-eyes",
  "63c cat_face_with_wry_smile smirk_cat;63d kissing_cat kissing_cat_face",
  "63e pouting_cat pouting_cat_face;63f crying_cat_face;640 scream_cat weary_cat_face",
  "641 slightly_frowning_face;642 slightly_smiling_face;643 upside-down_face upside__down_face",
  "644 face_with_rolling_eyes;645 no_good;645+ person_gesturing_no",
  "645+-200d-2640-fe0f woman_gesturing_no;645+-200d-2642-fe0f man_gesturing_no;646 ok_woman",
  "646+ person_gesturing_ok;646+-200d-2640-fe0f woman_gesturing_ok",
  "646+-200d-2642-fe0f man_gesturing_ok;647 bow;647+ person_bowing",
  "647+-200d-2640-fe0f woman_bowing;647+-200d-2642-fe0f man_bowing",
  "648 see-no-evil_monkey see_no_evil;649 hear-no-evil_monkey hear_no_evil",
  "64a speak-no-evil_monkey speak_no_evil;64b raising_hand;64b+ person_raising_hand",
  "64b+-200d-2640-fe0f woman_raising_hand;64b+-200d-2642-fe0f man_raising_hand;64c raised_hands",
  "64c+ raising_hands;64d+ person_frowning;64d+-200d-2640-fe0f woman_frowning",
  "64d+-200d-2642-fe0f man_frowning;64e person_with_pouting_face;64e+ person_pouting",
  "64e+-200d-2640-fe0f woman_pouting;64e+-200d-2642-fe0f man_pouting;64f pray;64f+ folded_hands",
  "680 rocket;681 helicopter;682 locomotive steam_locomotive;683 railway_car",
  "684 bullettrain_side high-speed_train;685 bullet_train bullettrain_front;686 train2;687 metro",
  "688 light_rail;689 station;68a tram;68b train tram_car;68c bus;68d oncoming_bus;68e trolleybus",
  "68f bus_stop busstop;690 minibus;691 ambulance;692 fire_engine;693 police_car",
  "694 oncoming_police_car;695 taxi;696 oncoming_taxi;697 automobile car red_car",
  "698 oncoming_automobile;699 blue_car sport_utility_vehicle;69a delivery_truck truck",
  "69b articulated_lorry;69c tractor;69d monorail;69e mountain_railway;69f suspension_railway",
  "6a0 mountain_cableway;6a1 aerial_tramway;6a2 ship;6a3 rowboat;6a3+ person_rowing_boat",
  "6a3+-200d-2640-fe0f woman_rowing_boat;6a3+-200d-2642-fe0f man_rowing_boat;6a4 speedboat",
  "6a5 horizontal_traffic_light traffic_light;6a6 vertical_traffic_light;6a7 construction",
  "6a8 police_car_light rotating_light;6a9 triangular_flag triangular_flag_on_post;6aa door",
  "6ab no_entry_sign prohibited;6ac cigarette smoking;6ad no_smoking",
  "6ae litter_in_bin_sign put_litter_in_its_place;6af do_not_litter no_littering;6b0 potable_water",
  "6b1 non-potable_water non__potable_water;6b2 bicycle bike;6b3 no_bicycles;6b4 bicyclist",
  "6b4+ person_biking;6b4+-200d-2640-fe0f woman_biking;6b4+-200d-2642-fe0f man_biking",
  "6b5 mountain_bicyclist;6b5+ person_mountain_biking;6b5+-200d-2640-fe0f woman_mountain_biking",
  "6b5+-200d-2642-fe0f man_mountain_biking;6b6 walking;6b6+ person_walking",
  "6b6+-200d-2640-fe0f woman_walking;6b6+-200d-2642-fe0f man_walking;6b7 no_pedestrians",
  "6b8 children_crossing;6b9 mens men’s_room;6ba womens women’s_room;6bb restroom;6bc baby_symbol",
  "6bd toilet;6be water_closet wc;6bf shower;6c0 bath;6c0+ person_taking_bath;6c1 bathtub",
  "6c2 passport_control;6c3 customs;6c4 baggage_claim;6c5 left_luggage;6cb couch_and_lamp",
  "6cc sleeping_accommodation;6cc+ person_in_bed;6cd shopping_bags;6ce bellhop_bell;6cf bed",
  "6d0 place_of_worship;6d1 stop_sign;6d2 shopping_cart;6d5 hindu_temple;6e0 hammer_and_wrench",
  "6e1 shield;6e2 oil_drum;6e3 motorway;6e4 railway_track;6e5 motor_boat;6e9 small_airplane",
  "6eb airplane_departure;6ec airplane_arrival airplane_arriving;6f3 passenger_ship",
  "6f4 kick_scooter;6f5 motor_scooter;6f6 canoe;6f7 sled;6f8 flying_saucer;6f9 skateboard",
  "6fa auto_rickshaw;7e0 orange_circle;7e1 yellow_circle;7e2 green_circle;7e3 purple_circle",
  "7e4 brown_circle;7e5 red_square;7e6 blue_square;7e7 orange_square;7e8 yellow_square",
  "7e9 green_square;7ea purple_square;7eb brown_square;90d white_heart;90e brown_heart",
  "90f pinching_hand;910 zipper-mouth_face zipper__mouth_face",
  "911 money-mouth_face money__mouth_face;912 face_with_thermometer;913 nerd_face",
  "914 thinking_face;915 face_with_head-bandage face_with_head__bandage;916 robot robot_face",
  "917 hugging_face;918+ sign_of_the_horns;919+ call_me_hand;91a+ raised_back_of_hand",
  "91b+ left-facing_fist;91c+ right-facing_fist;91d handshake;91e+ crossed_fingers",
  "91f+ love-you_gesture;920 cowboy_hat_face;921 clown_face;922 nauseated_face",
  "923 rolling_on_the_floor_laughing;924 drooling_face;925 lying_face;926+ person_facepalming",
  "926+-200d-2640-fe0f woman_facepalming;926+-200d-2642-fe0f man_facepalming;927 sneezing_face",
  "928 face_with_raised_eyebrow;929 star-struck;92a zany_face;92b shushing_face",
  "92c face_with_symbols_on_mouth;92d face_with_hand_over_mouth;92e face_vomiting",
  "92f exploding_head;930+ pregnant_woman;931+ breast-feeding;932+ palms_up_together;933+ selfie",
  "934+ prince;935+ man_in_tuxedo;936+ mrs._claus;937+ person_shrugging",
  "937+-200d-2640-fe0f woman_shrugging;937+-200d-2642-fe0f man_shrugging;938+ person_cartwheeling",
  "938+-200d-2640-fe0f woman_cartwheeling;938+-200d-2642-fe0f man_cartwheeling",
  "939+ person_juggling;939+-200d-2640-fe0f woman_juggling;939+-200d-2642-fe0f man_juggling",
  "93a person_fencing;93c people_wrestling;93c-200d-2640-fe0f women_wrestling",
  "93c-200d-2642-fe0f men_wrestling;93d+ person_playing_water_polo",
  "93d+-200d-2640-fe0f woman_playing_water_polo;93d+-200d-2642-fe0f man_playing_water_polo",
  "93e+ person_playing_handball;93e+-200d-2640-fe0f woman_playing_handball",
  "93e+-200d-2642-fe0f man_playing_handball;93f diving_mask;940 wilted_flower;941 drum",
  "942 clinking_glasses;943 tumbler_glass;944 spoon;945 goal_net;947 1st_place_medal",
  "948 2nd_place_medal;949 3rd_place_medal;94a boxing_glove;94b martial_arts_uniform",
  "94c curling_stone;94d lacrosse;94e softball;94f flying_disc;950 croissant;951 avocado",
  "952 cucumber;953 bacon;954 potato;955 carrot;956 baguette_bread;957 green_salad",
  "958 shallow_pan_of_food;959 stuffed_flatbread;95b glass_of_milk;95c peanuts;95d kiwi_fruit",
  "95e pancakes;95f dumpling;960 fortune_cookie;961 takeout_box;962 chopsticks;963 bowl_with_spoon",
  "964 cup_with_straw;965 coconut;966 broccoli;967 pie;968 pretzel;969 cut_of_meat;96a sandwich",
  "96b canned_food;96c leafy_green;96d mango;96e moon_cake;96f bagel",
  "970 smiling_face_with_3_hearts;971 yawning_face;973 partying_face;974 woozy_face;975 hot_face",
  "976 cold_face;97a pleading_face;97b sari;97c lab_coat;97d goggles;97e hiking_boot;97f flat_shoe",
  "980 crab;981 lion_face;982 scorpion;983 turkey;984 unicorn_face;985 eagle;986 duck;987 bat",
  "988 shark;989 owl;98a fox_face;98b butterfly;98c deer;98d gorilla;98e lizard;98f rhinoceros",
  "990 shrimp;991 squid;992 giraffe;993 zebra;994 hedgehog;995 sauropod;996 t-rex;997 cricket",
  "998 kangaroo;999 llama;99a peacock;99b hippopotamus;99c parrot;99d raccoon;99e lobster",
  "99f mosquito;9a0 microbe;9a1 badger;9a2 swan;9a5 sloth;9a6 otter;9a7 orangutan;9a8 skunk",
  "9a9 flamingo;9aa oyster;9ae guide_dog;9af probing_cane;9b0 red_hair;9b1 curly_hair;9b2 bald",
  "9b3 white_hair;9b4 bone;9b5 leg;9b6 foot;9b7 tooth;9b8 superhero;9b9 supervillain",
  "9ba safety_vest;9bb ear_with_hearing_aid;9bc motorized_wheelchair;9bd manual_wheelchair",
  "9be mechanical_arm;9bf mechanical_leg;9c0 cheese_wedge;9c1 cupcake;9c2 salt;9c3 beverage_box",
  "9c4 garlic;9c5 onion;9c6 falafel;9c7 waffle;9c8 butter;9c9 mate;9ca ice;9cd person_standing",
  "9ce person_kneeling;9cf deaf_person;9d0 face_with_monocle;9d1+ adult",
  "9d1-200d-91d-200d-9d1 people_holding_hands;9d2+ child;9d3+ older_adult;9d4+ bearded_person",
  "9d5+ woman_with_headscarf;9d6+ person_in_steamy_room;9d6+-200d-2640-fe0f woman_in_steamy_room",
  "9d6+-200d-2642-fe0f man_in_steamy_room;9d7+ person_climbing;9d7+-200d-2640-fe0f woman_climbing",
  "9d7+-200d-2642-fe0f man_climbing;9d8+ person_in_lotus_position",
  "9d8+-200d-2640-fe0f woman_in_lotus_position;9d8+-200d-2642-fe0f man_in_lotus_position;9d9+ mage",
  "9d9+-200d-2640-fe0f woman_mage;9d9+-200d-2642-fe0f man_mage;9da+ fairy",
  "9da+-200d-2640-fe0f woman_fairy;9da+-200d-2642-fe0f man_fairy;9db+ vampire",
  "9db+-200d-2640-fe0f woman_vampire;9db+-200d-2642-fe0f man_vampire;9dc+ merperson",
  "9dc+-200d-2640-fe0f mermaid;9dc+-200d-2642-fe0f merman;9dd+ elf;9dd+-200d-2640-fe0f woman_elf",
  "9dd+-200d-2642-fe0f man_elf;9de genie;9de-200d-2640-fe0f woman_genie",
  "9de-200d-2642-fe0f man_genie;9df zombie;9df-200d-2640-fe0f woman_zombie",
  "9df-200d-2642-fe0f man_zombie;9e0 brain;9e1 orange_heart;9e2 billed_cap;9e3 scarf;9e4 gloves",
  "9e5 coat;9e6 socks;9e7 red_envelope;9e8 firecracker;9e9 jigsaw;9ea test_tube;9eb petri_dish",
  "9ec dna;9ed compass;9ee abacus;9ef fire_extinguisher;9f0 toolbox;9f1 brick;9f2 magnet",
  "9f3 luggage;9f4 lotion_bottle;9f5 thread;9f6 yarn;9f7 safety_pin;9f8 teddy_bear;9f9 broom",
  "9fa basket;9fb roll_of_paper;9fc soap;9fd sponge;9fe receipt;9ff nazar_amulet;a70 ballet_shoes",
  "a71 one-piece_swimsuit;a72 briefs;a73 shorts;a78 drop_of_blood;a79 adhesive_bandage",
  "a7a stethoscope;a80 yo-yo;a81 kite;a90 ringed_planet;a91 chair;a92 razor;a93 axe;a94 diya_lamp",
  "a95 banjo"]

/-- The letters of countries and the name of each. -/
def countryLines : List String := [
  "ac ascension_island;ad andorra;ae united_arab_emirates;af afghanistan;ag antigua_&_barbuda",
  "ai anguilla;al albania;am armenia;ao angola;aq antarctica;ar argentina;as american_samoa",
  "at austria;au australia;aw aruba;ax åland_islands;az azerbaijan;ba bosnia_&_herzegovina",
  "bb barbados;bd bangladesh;be belgium;bf burkina_faso;bg bulgaria;bh bahrain;bi burundi;bj benin",
  "bl st._barthélemy;bm bermuda;bn brunei;bo bolivia;bq caribbean_netherlands;br brazil;bs bahamas",
  "bt bhutan;bv bouvet_island;bw botswana;by belarus;bz belize;ca canada",
  "cf central_african_republic;ch switzerland;ci côte_d’ivoire;ck cook_islands;cl chile",
  "cm cameroon;cn china;co colombia;cp clipperton_island;cr costa_rica;cu cuba;cv cape_verde",
  "cw curaçao;cx christmas_island;cy cyprus;de germany;dg diego_garcia;dj djibouti;dk denmark",
  "dm dominica;do dominican_republic;dz algeria;ea ceuta_&_melilla;ec ecuador;ee estonia;eg egypt",
  "eh western_sahara;er eritrea;es spain;et ethiopia;eu european_union;fi finland;fj fiji",
  "fk falkland_islands;fm micronesia;fo faroe_islands;fr france;ga gabon;gb united_kingdom",
  "gd grenada;ge georgia;gf french_guiana;gg guernsey;gh ghana;gi gibraltar;gl greenland;gm gambia",
  "gn guinea;gp guadeloupe;gq equatorial_guinea;gr greece",
  "gs south_georgia_&_south_sandwich_islands;gt guatemala;gu guam;gy guyana",
  "hm heard_&_mcdonald_islands;hn honduras;hr croatia;ht haiti;hu hungary;ic canary_islands",
  "id indonesia;ie ireland;il israel;im isle_of_man;in india;io british_indian_ocean_territory",
  "iq iraq;ir iran;is iceland;it italy;je jersey;jm jamaica;jo jordan;ke kenya;kg kyrgyzstan",
  "kh cambodia;ki kiribati;km comoros;kn st._kitts_&_nevis;kp north_korea;kr south_korea;kw kuwait",
  "ky cayman_islands;kz kazakhstan;la laos;lb lebanon;lc st._lucia;li liechtenstein;lk sri_lanka",
  "lr liberia;ls lesotho;lt lithuania;lu luxembourg;lv latvia;ly libya;ma morocco;mc monaco",
  "md moldova;me montenegro;mf st._martin;mg madagascar;mh marshall_islands;mk macedonia;ml mali",
  "mn mongolia;mp northern_mariana_islands;mq martinique;mr mauritania;ms montserrat;mt malta",
  "mu mauritius;mv maldives;mw malawi;mx mexico;my malaysia;mz mozambique;na namibia",
  "nc new_caledonia;ne niger;nf norfolk_island;ng nigeria;ni nicaragua;nl netherlands;no norway",
  "np nepal;nr nauru;nu niue;nz new_zealand;om oman;pa panama;pe peru;pf french_polynesia",
  "pg papua_new_guinea;ph philippines;pk pakistan;pl poland;pm st._pierre_&_miquelon",
  "pn pitcairn_islands;pr puerto_rico;ps palestinian_territories;pt portugal;pw palau;py paraguay",
  "qa qatar;re réunion;ro romania;rs serbia;ru russia;rw rwanda;sa saudi_arabia;sb solomon_islands",
  "sc seychelles;sd sudan;se sweden;sg singapore;sh st._helena;si slovenia;sj svalbard_&_jan_mayen",
  "sk slovakia;sl sierra_leone;sm san_marino;sn senegal;so somalia;sr suriname;ss south_sudan",
  "st são_tomé_&_príncipe;sv el_salvador;sx sint_maarten;sy syria;sz swaziland;ta tristan_da_cunha",
  "tc turks_&_caicos_islands;td chad;tf french_southern_territories;tg togo;th thailand",
  "tj tajikistan;tk tokelau;tm turkmenistan;tn tunisia;to tonga;tt trinidad_&_tobago;tv tuvalu",
  "tw taiwan;tz tanzania;ua ukraine;ug uganda;um u.s._outlying_islands;us united_states;uy uruguay",
  "uz uzbekistan;va vatican_city;vc st._vincent_&_grenadines;ve venezuela",
  "vg british_virgin_islands;vi u.s._virgin_islands;vn vietnam;vu vanuatu;wf wallis_&_futuna",
  "ws samoa;xk kosovo;ye yemen;yt mayotte;za south_africa;zm zambia;zw zimbabwe"]

end ModuleAtlas.Terminal
